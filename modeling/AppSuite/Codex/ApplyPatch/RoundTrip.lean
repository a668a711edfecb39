import AppSuite.Codex.ApplyPatch.Parser

/-!
This module contains a writer of hunks, and that the parser reads the written hunks back.
-/

namespace Codex.ApplyPatch

open List ExceptFold UpdateFileChunk Text

variable (chunk : UpdateFileChunk) (bare : Bool)

def UpdateFileChunk.markerLines : List Str :=
  if bare ∧ chunk.changeContext = none then [] else [contextLine chunk.changeContext]

def UpdateFileChunk.bodyLines : List Str :=
  chunk.oldLines.map ('-' :: ·)
    ++ (chunk.newLines.map ('+' :: ·) ++ if chunk.isEndOfFile then [eofMarker] else [])

def UpdateFileChunk.write : List Str :=
  chunk.markerLines bare ++ chunk.bodyLines

def writeChunks (bare : Bool) : List UpdateFileChunk → List Str
  | [] => []
  | chunk :: chunks => chunk.write bare ++ writeChunks false chunks

def Hunk.write : Hunk → List Str
  | .addFile path contents => (addFileMarker ++ path) :: (terminated contents).map ('+' :: ·)
  | .deleteFile path => [deleteFileMarker ++ path]
  | .updateFile path movePath chunks =>
    (updateFileMarker ++ path) :: (movePath.toList.map (moveToMarker ++ ·) ++ writeChunks bare chunks)

def writePatch (hunks : List (Hunk × Bool)) (finalNewline : Bool) : Str :=
  unlines (beginPatchMarker :: hunks.flatMap fun hunk => hunk.1.write hunk.2)
    ++ (endPatchMarker ++ if finalNewline then ['\n'] else [])

structure LineOk (line : Str) : Prop where
  noBreak : '\n' ∉ line
  noReturn : line.getLast? ≠ some '\r'

structure PathOk (path : Str) : Prop where
  ne_nil : path ≠ []
  trimmed : trim path = path
  noBreak : '\n' ∉ path

structure UpdateFileChunk.Writable (chunk : UpdateFileChunk) : Prop where
  context : ∀ context ∈ chunk.changeContext, LineOk context
  old : ∀ line ∈ chunk.oldLines, LineOk line
  new : ∀ line ∈ chunk.newLines, LineOk line
  ne_nil : chunk.oldLines ≠ [] ∨ chunk.newLines ≠ []

def Hunk.Writable : Hunk → Prop
  | .addFile path contents =>
    PathOk path ∧ unterminated contents = [] ∧ ∀ line ∈ terminated contents, LineOk line
  | .deleteFile path => PathOk path
  | .updateFile path movePath chunks =>
    PathOk path ∧ (∀ dest ∈ movePath, PathOk dest) ∧ chunks ≠ []
      ∧ ∀ chunk ∈ chunks, chunk.Writable

instance (line : Str) : Decidable (LineOk line) :=
  decidable_of_iff ('\n' ∉ line ∧ line.getLast? ≠ some '\r')
    ⟨fun h => ⟨h.1, h.2⟩, fun h => ⟨h.noBreak, h.noReturn⟩⟩

instance (path : Str) : Decidable (PathOk path) :=
  decidable_of_iff (path ≠ [] ∧ trim path = path ∧ '\n' ∉ path)
    ⟨fun h => ⟨h.1, h.2.1, h.2.2⟩, fun h => ⟨h.ne_nil, h.trimmed, h.noBreak⟩⟩

instance (chunk : UpdateFileChunk) : Decidable chunk.Writable :=
  decidable_of_iff ((∀ context ∈ chunk.changeContext, LineOk context)
      ∧ (∀ line ∈ chunk.oldLines, LineOk line) ∧ (∀ line ∈ chunk.newLines, LineOk line)
      ∧ (chunk.oldLines ≠ [] ∨ chunk.newLines ≠ []))
    ⟨fun h => ⟨h.1, h.2.1, h.2.2.1, h.2.2.2⟩, fun h => ⟨h.context, h.old, h.new, h.ne_nil⟩⟩

instance (hunk : Hunk) : Decidable hunk.Writable := by
  cases hunk <;> unfold Hunk.Writable <;> infer_instance

section Written

theorem LineOk.append (ha : LineOk a) (hb : LineOk b) : LineOk (a ++ b) := by
  constructor
  . simp [ha.noBreak, hb.noBreak]
  . rw [getLast?_append]
    cases h : b.getLast? with
    | none => exact ha.noReturn
    | some c =>
      rw [Option.some_or, ← h]
      exact hb.noReturn

variable {path : Str}

theorem PathOk.trimEnd_eq (h : PathOk path) : Text.trimEnd Text.isWhiteSpace path = path := by
  have htrim := h.trimmed
  rw [← htrim]
  exact rdropWhile_idempotent _ _

theorem PathOk.lineOk (h : PathOk path) : LineOk path := by
  constructor
  . exact h.noBreak
  . intro hlast
    have := Text.trimEnd_eq_self_iff.mp h.trimEnd_eq '\r' hlast
    contradiction

theorem lineOk_contextLine {context : Option Str} (h : ∀ text ∈ context, LineOk text)
    : LineOk (contextLine context) := by
  cases context with
  | none => exact (by decide : LineOk emptyChangeContextMarker)
  | some text =>
    apply LineOk.append
    . decide
    . exact h text rfl

theorem LineOk.cons {line : Str} (h : LineOk line) (hc : LineOk [c]) : LineOk (c :: line) :=
  hc.append h

theorem UpdateFileChunk.Writable.lineOk {chunk : UpdateFileChunk} (h : chunk.Writable) (bare : Bool)
    : ∀ line ∈ chunk.write bare, LineOk line := by
  unfold write markerLines bodyLines
  simp only [forall_mem_append, forall_mem_map]
  refine ⟨?_, ?_, ?_, ?_⟩
  . split
    . simp
    . simpa using lineOk_contextLine h.context
  . intro line hline
    exact (h.old line hline).cons (by decide)
  . intro line hline
    exact (h.new line hline).cons (by decide)
  . split
    . simpa using (by decide : LineOk eofMarker)
    . simp

theorem lineOk_writeChunks {chunks : List UpdateFileChunk} (h : ∀ chunk ∈ chunks, chunk.Writable)
    (bare : Bool)
    : ∀ line ∈ writeChunks bare chunks, LineOk line := by
  induction chunks generalizing bare with
  | nil => simp [writeChunks]
  | cons chunk chunks ih =>
    rw [forall_mem_cons] at h
    rw [writeChunks, forall_mem_append]
    exact ⟨h.1.lineOk bare, ih h.2 false⟩

theorem Hunk.Writable.lineOk {hunk : Hunk} (h : hunk.Writable) (bare : Bool)
    : ∀ line ∈ hunk.write bare, LineOk line := by
  cases hunk with
  | addFile path contents =>
    have ⟨hpath, _, hlines⟩ := h
    rw [write, forall_mem_cons, forall_mem_map]
    refine ⟨LineOk.append (by decide) hpath.lineOk, ?_⟩
    intro line hline
    exact (hlines line hline).cons (by decide)
  | deleteFile path =>
    rw [write, forall_mem_singleton]
    exact LineOk.append (by decide) (PathOk.lineOk h)
  | updateFile path movePath chunks =>
    have ⟨hpath, hmove, _, hchunks⟩ := h
    rw [write, forall_mem_cons, forall_mem_append, forall_mem_map]
    refine ⟨LineOk.append (by decide) hpath.lineOk, ?_, lineOk_writeChunks hchunks bare⟩
    intro dest hdest
    rw [Option.mem_toList] at hdest
    exact LineOk.append (by decide) (hmove dest hdest).lineOk

theorem lines_trim_writePatch {hunks : List (Hunk × Bool)} (h : ∀ hunk ∈ hunks, hunk.1.Writable)
    (finalNewline : Bool)
    : lines (trim (writePatch hunks finalNewline))
      = beginPatchMarker :: (hunks.flatMap fun hunk => hunk.1.write hunk.2) ++ [endPatchMarker] := by
  have hlines : ∀ line ∈ beginPatchMarker :: hunks.flatMap fun hunk => hunk.1.write hunk.2,
      LineOk line := by
    simp only [forall_mem_cons, forall_mem_flatMap]
    refine ⟨by decide, ?_⟩
    intro hunk hhunk
    exact (h hunk hhunk).lineOk hunk.2
  have htrim : trim (writePatch hunks finalNewline)
      = unlines (beginPatchMarker :: hunks.flatMap fun hunk => hunk.1.write hunk.2)
          ++ endPatchMarker := by
    unfold writePatch trim
    rw [← append_assoc, trim_append_blank, trim_eq_trimEnd, trimEnd_eq_self_iff]
    . intro c hc
      rw [getLast?_append] at hc
      cases hc
      rfl
    . intro c hc
      cases hc
      rfl
    . intro c hc
      cases finalNewline with
      | false => cases hc
      | true =>
        cases mem_singleton.mp hc
        rfl
  rw [htrim, lines_unlines_append]
  . intro line hline
    exact ⟨(hlines line hline).noBreak, (hlines line hline).noReturn⟩
  . decide
  . decide

end Written

section Chunks

variable {n parsed : Nat} {chunk : UpdateFileChunk} {line : Str} {lines rest : List Str}

theorem parseChunkLines_append {changes : List ChangeLine}
    (h : lines.map changeLine = changes.map some)
    : parseChunkLines n chunk parsed (lines ++ rest)
      = parseChunkLines n (changes.foldl .push chunk) (parsed + lines.length) rest := by
  induction lines generalizing changes chunk parsed with
  | nil =>
    cases changes with
    | nil => rfl
    | cons change changes => cases h
  | cons line lines ih =>
    cases changes with
    | nil => cases h
    | cons change changes =>
      rw [map_cons, map_cons, cons.injEq] at h
      rw [cons_append, parseChunkLines, if_neg (ne_eofMarker_of_changeLine h.1), h.1]
      dsimp only
      rw [ih h.2, length_cons, foldl_cons, Nat.add_right_comm, Nat.add_assoc]

theorem foldl_push_removed
    : (lines.map .removed).foldl .push chunk
        = { chunk with oldLines := chunk.oldLines ++ lines } := by
  induction lines generalizing chunk with
  | nil => simp
  | cons line lines ih => simp [ih, push]

theorem foldl_push_added
    : (lines.map .added).foldl .push chunk
        = { chunk with newLines := chunk.newLines ++ lines } := by
  induction lines generalizing chunk with
  | nil => simp
  | cons line lines ih => simp [ih, push]

theorem parseChunkLines_stops (hparsed : 0 < parsed) (h : Stops rest)
    : parseChunkLines n chunk parsed rest = .ok (chunk, parsed) := by
  cases rest with
  | nil => rfl
  | cons line rest =>
    have ⟨hchange, heof⟩ := h line rfl
    rw [parseChunkLines, if_neg heof, hchange]
    rw [if_neg (by omega)]
    rfl

theorem parseChunkLines_write (h : chunk.Writable) (hrest : Stops rest)
    : parseChunkLines n ⟨chunk.changeContext, [], [], false⟩ 0
        (chunk.bodyLines ++ rest)
      = .ok (chunk, chunk.bodyLines.length) := by
  have hpos : 0 < chunk.oldLines.length + chunk.newLines.length := by
    have := h.ne_nil
    simp only [← length_pos_iff] at this
    omega
  have hold : (chunk.oldLines.map ('-' :: ·)).map changeLine
      = (chunk.oldLines.map ChangeLine.removed).map some := by
    simp [changeLine]
  have hnew : (chunk.newLines.map ('+' :: ·)).map changeLine
      = (chunk.newLines.map ChangeLine.added).map some := by
    simp [changeLine]
  unfold bodyLines
  rw [append_assoc, append_assoc, parseChunkLines_append hold, parseChunkLines_append hnew,
    foldl_push_removed, foldl_push_added]
  simp only [nil_append, length_append, length_map, Nat.zero_add]
  cases heof : chunk.isEndOfFile with
  | false =>
    simp only [Bool.false_eq_true, if_false, nil_append]
    rw [parseChunkLines_stops hpos hrest, ← heof]
    rfl
  | true =>
    simp only [if_true, cons_append]
    rw [parseChunkLines, if_pos rfl, if_neg (by omega), ← heof, Nat.add_assoc]
    rfl

theorem parseChangeContext_of_changeLine (h : changeLine line ≠ none)
    : parseChangeContext line n true = .ok (none, 0) := by
  unfold parseChangeContext
  split
  . next heq =>
    rw [heq] at h
    contradiction
  . split
    . next context heq =>
      rw [isPrefixOf?_eq_some_iff_append_eq] at heq
      rw [← heq] at h
      contradiction
    . rfl

variable {allow : Bool} {chunks : List UpdateFileChunk} {context : Option Str} {bare : Bool}

theorem parseChangeContext_contextLine
    : parseChangeContext (contextLine context) n allow = .ok (context, 1) := by
  cases context with
  | none => rfl
  | some text =>
    rfl

theorem parseUpdateFileChunk_of_parseChangeContext
    (hcontext : parseChangeContext line n allow = .ok (context, start))
    (hstart : start < (line :: lines).length)
    (hparse : parseChunkLines n ⟨context, [], [], false⟩ 0 ((line :: lines).drop start) = .ok (chunk, parsed))
    : parseUpdateFileChunk (line :: lines) n allow = .ok (chunk, parsed + start) := by
  simp only [parseUpdateFileChunk, bind_eq_ok, guard_eq_ok, pure_eq_ok]
  exact ⟨_, hcontext, by omega, _, hparse, rfl⟩

theorem UpdateFileChunk.Writable.bodyLines_eq (h : chunk.Writable)
    : ∃ c text more, chunk.bodyLines = (c :: text) :: more ∧ (c = '-' ∨ c = '+') := by
  unfold bodyLines
  cases hold : chunk.oldLines with
  | cons line lines => exact ⟨'-', line, _, rfl, .inl rfl⟩
  | nil =>
    cases hnew : chunk.newLines with
    | cons line lines => exact ⟨'+', line, _, rfl, .inr rfl⟩
    | nil =>
      have := h.ne_nil
      simp [hold, hnew] at this

theorem parseUpdateFileChunk_write (h : chunk.Writable) (hrest : Stops rest)
    (hbare : bare = true → allow = true)
    : parseUpdateFileChunk (chunk.write bare ++ rest) n allow
      = .ok (chunk, (chunk.write bare).length) := by
  have hbody := parseChunkLines_write (n := n) h hrest
  have ⟨c, text, more, hfirst, hc⟩ := h.bodyLines_eq
  unfold write markerLines
  split
  . next hnone =>
    have hcontext : parseChangeContext (c :: text) n allow = .ok (none, 0) := by
      rw [hbare hnone.1]
      apply parseChangeContext_of_changeLine
      cases hc with
      | inl hc | inr hc => simp [changeLine, hc]
    rw [hnone.2] at hbody
    rw [hfirst] at hbody ⊢
    have hparse := parseUpdateFileChunk_of_parseChangeContext hcontext (by simp) hbody
    exact hparse
  . apply parseUpdateFileChunk_of_parseChangeContext parseChangeContext_contextLine _ hbody
    simp [hfirst]

theorem UpdateFileChunk.Writable.write_eq (h : chunk.Writable) (bare : Bool)
    : ∃ c text more, chunk.write bare = (c :: text) :: more ∧ (c = '-' ∨ c = '+' ∨ c = '@') := by
  unfold write markerLines
  split
  . have ⟨c, text, more, hfirst, hc⟩ := h.bodyLines_eq
    refine ⟨c, text, more, hfirst, ?_⟩
    cases hc with
    | inl hc => exact .inl hc
    | inr hc => exact .inr (.inl hc)
  . cases chunk.changeContext with
    | none | some context => exact ⟨'@', _, _, rfl, .inr (.inr rfl)⟩

def StartsHunk (rest : List Str) : Prop :=
  ∀ line, rest.head? = some line → line.head? = some '*' ∧ line ≠ eofMarker

theorem StartsHunk.stops (h : StartsHunk rest) : Stops rest := by
  intro line hline
  have ⟨hstar, heof⟩ := h line hline
  refine ⟨?_, heof⟩
  cases line with
  | nil => cases hstar
  | cons c text =>
    cases hstar
    rfl

theorem stops_writeChunks (chunks : List UpdateFileChunk) (hrest : StartsHunk rest)
    : Stops (writeChunks false chunks ++ rest) := by
  cases chunks with
  | nil => exact hrest.stops
  | cons chunk chunks =>
    intro line hline
    have hcontext : line = contextLine chunk.changeContext := by
      cases hline
      rfl
    rw [hcontext]
    cases chunk.changeContext with
    | none => decide
    | some context => exact ⟨rfl, by rintro ⟨⟩⟩

theorem parseChunks_of_chunk (hblank : trim line ≠ []) (hstar : line.head? ≠ some '*')
    (h : parseUpdateFileChunk (line :: lines) (n + parsed) chunks.isEmpty = .ok (chunk, chunkLines))
    : parseChunks n chunks parsed (line :: lines)
      = parseChunks n (chunks ++ [chunk]) (parsed + chunkLines)
          ((line :: lines).drop chunkLines) := by
  rw [parseChunks, if_neg (by simpa using hblank), if_neg hstar]
  split
  . next heq =>
    rw [h] at heq
    cases heq
  . next heq =>
    rw [h] at heq
    cases heq
    rfl

theorem parseChunks_startsHunk (h : StartsHunk rest)
    : parseChunks n chunks parsed rest = .ok (chunks, parsed) := by
  cases rest with
  | nil =>
    rw [parseChunks]
    rfl
  | cons line rest =>
    obtain ⟨hstar, _⟩ := h line rfl
    cases line with
    | nil => cases hstar
    | cons c text =>
      cases hstar
      rw [parseChunks, if_neg (by simpa using trim_cons_ne_nil rfl), if_pos (by rfl)]
      rfl

theorem parseChunks_write (h : ∀ chunk ∈ chunks, chunk.Writable)
    (hrest : StartsHunk rest) (hbare : bare = true → done = [])
    : parseChunks n done parsed (writeChunks bare chunks ++ rest)
      = .ok (done ++ chunks, parsed + (writeChunks bare chunks).length) := by
  induction chunks generalizing done parsed bare with
  | nil => simpa [writeChunks] using parseChunks_startsHunk hrest
  | cons chunk chunks ih =>
    rw [forall_mem_cons] at h
    have hallow : bare = true → done.isEmpty = true := by
      intro hb
      rw [hbare hb]
      rfl
    have hchunk := parseUpdateFileChunk_write (n := n + parsed) h.1
      (stops_writeChunks chunks hrest) hallow
    have ⟨c, text, more, hfirst, hc⟩ := h.1.write_eq bare
    have hne : isWhiteSpace c = false ∧ some c ≠ some '*' := by
      rcases hc with hc | hc | hc <;> rw [hc] <;> decide
    rw [writeChunks, append_assoc]
    have hlength : (chunk.write bare ++ writeChunks false chunks).length
        = (chunk.write bare).length + (writeChunks false chunks).length := length_append
    rw [hfirst] at hchunk hlength ⊢
    rw [cons_append] at hchunk
    rw [cons_append, parseChunks_of_chunk (trim_cons_ne_nil hne.1) hne.2 hchunk, ← cons_append,
      drop_left, ih h.2 (by simp), hlength, Nat.add_assoc, append_assoc]
    rfl

end Chunks

section Hunks

variable {path : Str} {rest : List Str}

theorem trim_marker_append (hmarker : marker.head? = some '*') (hpath : PathOk path)
    : trim (marker ++ path) = marker ++ path := by
  unfold trim
  rw [trim_eq_trimEnd, trimEnd_append_of_ne_nil]
  . rw [hpath.trimEnd_eq]
  . rw [hpath.trimEnd_eq]
    exact hpath.ne_nil
  . intro c hc
    rw [head?_append, hmarker] at hc
    cases hc
    rfl

variable {contents : Str} {movePath : Option Str} {chunks : List UpdateFileChunk} {hunk : Hunk}
  {hunks : List (Hunk × Bool)}

theorem parseAddLines_write {parsed : Nat} (hrest : StartsHunk rest)
    : parseAddLines contents parsed (added.map ('+' :: ·) ++ rest)
      = (contents ++ unlines added, parsed + added.length) := by
  induction added generalizing contents parsed with
  | nil =>
    have hrest : parseAddLines contents parsed rest = (contents, parsed) := by
      cases rest with
      | nil => rfl
      | cons line rest =>
        have ⟨hstar, _⟩ := hrest line rfl
        cases line with
        | nil => cases hstar
        | cons c text =>
          cases hstar
          rfl
    simpa [unlines] using hrest
  | cons line added ih =>
    have hline : parseAddLines contents parsed (('+' :: line) :: (added.map ('+' :: ·) ++ rest))
        = parseAddLines (contents ++ line ++ ['\n']) (parsed + 1) (added.map ('+' :: ·) ++ rest) := rfl
    rw [map_cons, cons_append, hline, ih]
    simp [unlines]
    omega

theorem isPrefixOf?_marker_append (marker path : Str)
    : marker.isPrefixOf? (marker ++ path) = some path :=
  isPrefixOf?_eq_some_iff_append_eq.mpr rfl

theorem parseOneHunk_addFile (h : (Hunk.addFile path contents).Writable) (hrest : StartsHunk rest) (n : Nat)
    : parseOneHunk (addFileMarker ++ path) ((terminated contents).map ('+' :: ·) ++ rest) n
      = .ok (.addFile path contents, 1 + (terminated contents).length) := by
  have ⟨hpath, hwhole, _⟩ := h
  have hcontents := unlines_terminated contents
  rw [hwhole, append_nil] at hcontents
  unfold parseOneHunk
  dsimp only
  rw [trim_marker_append rfl hpath, isPrefixOf?_marker_append, parseAddLines_write hrest, hcontents]
  rfl

theorem parseOneHunk_deleteFile (hpath : PathOk path) (lines : List Str) (n : Nat)
    : parseOneHunk (deleteFileMarker ++ path) lines n = .ok (.deleteFile path, 1) := by
  have hadd : addFileMarker.isPrefixOf? (deleteFileMarker ++ path) = none := rfl
  unfold parseOneHunk
  dsimp only
  rw [trim_marker_append rfl hpath, hadd, isPrefixOf?_marker_append]
  rfl

theorem head?_bind_moveTo (h : (Hunk.updateFile path movePath chunks).Writable) {bare : Bool}
    : ((movePath.toList.map (moveToMarker ++ ·) ++ (writeChunks bare chunks ++ rest)).head?.bind
        fun line => moveToMarker.isPrefixOf? line)
      = movePath := by
  have ⟨_, _, hne, hchunks⟩ := h
  cases movePath with
  | some dest => exact isPrefixOf?_marker_append moveToMarker dest
  | none =>
    cases chunks with
    | nil => contradiction
    | cons chunk chunks =>
      have ⟨c, text, more, hfirst, hc⟩ := (hchunks chunk (by simp)).write_eq bare
      rw [writeChunks, hfirst]
      rcases hc with hc | hc | hc <;> rw [hc] <;> rfl

theorem parseOneHunk_updateFile (h : (Hunk.updateFile path movePath chunks).Writable)
    (hrest : StartsHunk rest) (bare : Bool) (n : Nat)
    : parseOneHunk (updateFileMarker ++ path)
        (movePath.toList.map (moveToMarker ++ ·) ++ (writeChunks bare chunks ++ rest)) n
      = .ok (.updateFile path movePath chunks,
          1 + movePath.toList.length + (writeChunks bare chunks).length) := by
  have ⟨hpath, hmove, hne, hchunks⟩ := h
  have hadd : addFileMarker.isPrefixOf? (updateFileMarker ++ path) = none := rfl
  have hdelete : deleteFileMarker.isPrefixOf? (updateFileMarker ++ path) = none := rfl
  unfold parseOneHunk
  dsimp only
  rw [trim_marker_append rfl hpath, hadd, hdelete, isPrefixOf?_marker_append]
  rw [head?_bind_moveTo h, ← Option.length_toList, drop_left' (by simp),
    parseChunks_write hchunks hrest (fun _ => rfl), bind_eq_ok]
  refine ⟨_, rfl, ?_⟩
  rw [guard_eq_ok]
  refine ⟨?_, rfl⟩
  simpa using hne

theorem Hunk.Writable.write_eq (h : hunk.Writable) (bare : Bool)
    : ∃ line lines, hunk.write bare = line :: lines ∧ line.head? = some '*' ∧ line ≠ eofMarker
      ∧ ∀ rest n, StartsHunk rest →
          parseOneHunk line (lines ++ rest) n = .ok (hunk, (hunk.write bare).length) := by
  cases hunk with
  | addFile path contents =>
    refine ⟨_, _, rfl, rfl, by rintro ⟨⟩, ?_⟩
    intro rest n hrest
    rw [parseOneHunk_addFile h hrest]
    simp [write, Nat.add_comm]
  | deleteFile path =>
    refine ⟨_, _, rfl, rfl, by rintro ⟨⟩, ?_⟩
    intro rest n _
    exact parseOneHunk_deleteFile h _ n
  | updateFile path movePath chunks =>
    refine ⟨_, _, rfl, rfl, by rintro ⟨⟩, ?_⟩
    intro rest n hrest
    rw [append_assoc, parseOneHunk_updateFile h hrest]
    simp [write]
    omega

theorem startsHunk_write (h : ∀ hunk ∈ hunks, hunk.1.Writable)
    : StartsHunk (hunks.flatMap fun hunk => hunk.1.write hunk.2) := by
  cases hunks with
  | nil => rintro line ⟨⟩
  | cons hunk hunks =>
    have ⟨line, lines, hwrite, hstar, heof, _⟩ := (h hunk (by simp)).write_eq hunk.2
    intro first hfirst
    rw [flatMap_cons, hwrite] at hfirst
    cases hfirst
    exact ⟨hstar, heof⟩

theorem parseHunks_of_parseOneHunk {line : Str} {lines : List Str} {n k : Nat}
    (h : parseOneHunk line lines n = .ok (hunk, k))
    : parseHunks done n (line :: lines)
      = parseHunks (done ++ [hunk]) (n + k) ((line :: lines).drop k) := by
  rw [parseHunks]
  split
  . next heq =>
    rw [h] at heq
    cases heq
  . next heq =>
    rw [h] at heq
    cases heq
    rfl

theorem parseHunks_write (h : ∀ hunk ∈ hunks, hunk.1.Writable) (done : List Hunk) (n : Nat)
    : parseHunks done n (hunks.flatMap fun hunk => hunk.1.write hunk.2)
      = .ok (done ++ hunks.map (·.1)) := by
  induction hunks generalizing done n with
  | nil =>
    rw [flatMap_nil, parseHunks]
    simp [pure, Except.pure]
  | cons hunk hunks ih =>
    rw [forall_mem_cons] at h
    obtain ⟨line, lines, hwrite, _, _, hparse⟩ := h.1.write_eq hunk.2
    rw [flatMap_cons, hwrite, cons_append,
      parseHunks_of_parseOneHunk (hparse _ n (startsHunk_write h.2)), hwrite, ← cons_append,
      drop_left, ih h.2]
    simp

theorem parsePatch_writePatch (hunks : List (Hunk × Bool)) (finalNewline : Bool)
    (h : ∀ hunk ∈ hunks, hunk.1.Writable)
    : (parsePatch (writePatch hunks finalNewline)).map (·.hunks) = .ok (hunks.map (·.1)) := by
  have hcheck : checkPatchBoundariesStrict (lines (trim (writePatch hunks finalNewline)))
      = .ok (lines (trim (writePatch hunks finalNewline)),
          hunks.flatMap fun hunk => hunk.1.write hunk.2) := by
    rw [checkPatchBoundariesStrict_eq_ok_iff]
    refine ⟨rfl, beginPatchMarker, endPatchMarker, lines_trim_writePatch h finalNewline, ?_, ?_⟩
    . decide
    . decide
  unfold parsePatch
  rw [parsePatchText_of_strict hcheck, parseHunks_write h]
  rfl

theorem parsePatch_writePatch_markers
    : (∀ hunk ∈ [(Hunk.addFile "a".toList "*** End Patch\n\n".toList, false),
        (.updateFile "b".toList (some "c d".toList)
          [⟨none, ["@@".toList], [], false⟩, ⟨some [], [], ["*** End of File".toList], true⟩], true),
        (.deleteFile "e".toList, false)], hunk.1.Writable)
      ∧ (parsePatch (writePatch
            [(Hunk.addFile "a".toList "*** End Patch\n\n".toList, false),
              (.updateFile "b".toList (some "c d".toList)
                [⟨none, ["@@".toList], [], false⟩, ⟨some [], [], ["*** End of File".toList], true⟩],
                true),
              (.deleteFile "e".toList, false)] true)).map (·.hunks)
          = .ok [.addFile "a".toList "*** End Patch\n\n".toList,
              .updateFile "b".toList (some "c d".toList)
                [⟨none, ["@@".toList], [], false⟩, ⟨some [], [], ["*** End of File".toList], true⟩],
              .deleteFile "e".toList] :=
  ⟨by decide, parsePatch_writePatch _ true (by decide)⟩

end Hunks

end Codex.ApplyPatch
