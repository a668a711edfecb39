import AppSuite.Codex.ApplyPatch.StreamingParser

/-!
This module contains the layout of a patch: what each line of it is, given where in a hunk the line
stands.
-/

namespace Codex.ApplyPatch

open List ExceptFold

inductive Place where
  | outside
  | adding
  | header
  | bare
  | marked
  | lines
  | closed
  deriving DecidableEq, Repr

def Place.opened : Hunk → Place
  | .addFile .. => .adding
  | .deleteFile .. => .outside
  | .updateFile .. => .header

inductive Item where
  | header (hunk : Hunk)
  | addLine (text : Str)
  | moveTo (path : Str)
  | blank
  | marker (context : Option Str)
  | change (line : ChangeLine)
  | endOfFile
  deriving DecidableEq, Repr

def Item.edit : Item → Hunk → Hunk
  | .addLine text, .addFile path contents => .addFile path (contents ++ text ++ ['\n'])
  | .moveTo dest, .updateFile path _ chunks => .updateFile path (some dest) chunks
  | .marker context, .updateFile path movePath chunks =>
    .updateFile path movePath (chunks ++ [⟨context, [], [], false⟩])
  | .change line, .updateFile path movePath chunks =>
    .updateFile path movePath (pushChange chunks line)
  | .endOfFile, .updateFile path movePath chunks => .updateFile path movePath (markEndOfFile chunks)
  | _, hunk => hunk

def Item.apply (item : Item) (hunks : List Hunk) : List Hunk :=
  match item with
  | .header hunk => hunks ++ [hunk]
  | item => hunks.dropLast ++ (hunks.getLast?.map item.edit).toList

inductive Reads : Place → Str → Item → Place → Prop where
  | header {place : Place} {line : Str} {hunk : Hunk}
      (hplace : place = .outside ∨ place = .adding
        ∨ (place = .lines ∨ place = .closed) ∧ line.head? = some '*')
      (hopen : openHunk (trim line) = some hunk)
      : Reads place line (.header hunk) (.opened hunk)
  | addLine {text : Str} : Reads .adding ('+' :: text) (.addLine text) .adding
  | moveTo {path : Str} : Reads .header (moveToMarker ++ path) (.moveTo path) .bare
  | blankBefore {place : Place} {line : Str} (hplace : place = .header ∨ place = .bare)
      (hblank : trim line = [])
      : Reads place line .blank .bare
  | blankAfter {place : Place} {line : Str}
      (hplace : place = .closed ∨ place = .lines ∧ changeLine line = none) (hblank : trim line = [])
      : Reads place line .blank .closed
  | marker {place : Place} {context : Option Str}
      (hplace : (place = .header ∨ place = .bare) ∨ place = .lines ∨ place = .closed)
      : Reads place (contextLine context) (.marker context) .marked
  | change {place : Place} {line : Str} {change : ChangeLine}
      (hplace : place = .marked ∨ place = .lines ∨ (place = .header ∨ place = .bare) ∧ trim line ≠ [])
      (hchange : changeLine line = some change)
      : Reads place line (.change change) .lines
  | endOfFile : Reads .lines eofMarker .endOfFile .closed

inductive Layout : Place → List Hunk → List Str → Place → List Hunk → Prop where
  | nil {place : Place} {hunks : List Hunk} : Layout place hunks [] place hunks
  | cons {place mid place' : Place} {hunks hunks' : List Hunk} {line : Str} {lines : List Str}
      {item : Item} (hline : Reads place line item mid)
      (hlines : Layout mid (item.apply hunks) lines place' hunks')
      : Layout place hunks (line :: lines) place' hunks'

theorem Layout.append {place mid place' : Place}
    {lines lines' : List Str} (h : Layout place hunks lines mid hunks')
    (h' : Layout mid hunks' lines' place' hunks'')
    : Layout place hunks (lines ++ lines') place' hunks'' := by
  induction h with
  | nil => assumption
  | cons hline _ ih =>
    apply cons hline
    apply ih
    assumption

section Chunks

variable {init : List Hunk} {path : Str} {movePath : Option Str} {chunks : List UpdateFileChunk}
  {chunk : UpdateFileChunk}

variable {change : ChangeLine} {parsed' : Nat} {chunk' : UpdateFileChunk} {line : Str} {place : Place}

@[simp]
theorem pushChange_nil
    : pushChange [] change = [UpdateFileChunk.push ⟨none, [], [], false⟩ change] := rfl

@[simp]
theorem pushChange_concat : pushChange (chunks ++ [chunk]) change = chunks ++ [chunk.push change] := by
  simp [pushChange]

@[simp]
theorem markEndOfFile_concat
    : markEndOfFile (chunks ++ [chunk]) = chunks ++ [{ chunk with isEndOfFile := true }] := by
  simp [markEndOfFile]

theorem Item.apply_concat {item : Item} (h : ∀ hunk, item ≠ .header hunk) {hunk : Hunk}
    : item.apply (init ++ [hunk]) = init ++ [item.edit hunk] := by
  cases item with
  | header hunk => cases h hunk rfl
  | _ => simp [apply]

variable {n parsed : Nat} {lines : List Str}

section

variable (init : List Hunk) (path : Str) (movePath : Option Str)

theorem layout_of_parseChunkLines (chunks : List UpdateFileChunk) (hparsed : 0 < parsed)
    (h : parseChunkLines n chunk parsed lines = .ok (chunk', parsed'))
    : ∃ used rest place', lines = used ++ rest ∧ parsed' = parsed + used.length
      ∧ Layout .lines (init ++ [.updateFile path movePath (chunks ++ [chunk])]) used
          place' (init ++ [.updateFile path movePath (chunks ++ [chunk'])])
      ∧ (place' = .closed ∨ place' = .lines ∧ Stops rest) := by
  induction lines generalizing chunk parsed with
  | nil =>
    rw [parseChunkLines, pure_eq_ok, Prod.mk.injEq] at h
    rw [h.1]
    refine ⟨[], [], .lines, rfl, h.2.symm, .nil, .inr ⟨rfl, ?_⟩⟩
    rintro line ⟨⟩
  | cons line lines ih =>
    rw [parseChunkLines] at h
    split at h
    . next heof =>
      rw [guard_eq_ok, pure_eq_ok, Prod.mk.injEq] at h
      obtain ⟨_, hchunk, hcount⟩ := h
      refine ⟨[line], lines, .closed, rfl, hcount.symm, ?_, .inl rfl⟩
      rw [heof]
      apply Layout.cons .endOfFile
      rw [Item.apply_concat (by simp), Item.edit, markEndOfFile_concat, hchunk]
      exact .nil
    . next heof =>
      split at h
      . next change hchange =>
        obtain ⟨used, rest, place', hlines, hcount, hlayout, hplace⟩ := ih (by omega) h
        refine ⟨line :: used, rest, place', by rw [hlines]; rfl, ?_, ?_, hplace⟩
        . rw [hcount, length_cons]
          omega
        . apply Layout.cons (.change (.inr (.inl rfl)) hchange)
          rw [Item.apply_concat (by simp), Item.edit, pushChange_concat]
          exact hlayout
      . next hchange =>
        rw [guard_eq_ok, pure_eq_ok, Prod.mk.injEq] at h
        rw [h.2.1]
        refine ⟨[], line :: lines, .lines, rfl, h.2.2.symm, .nil, .inr ⟨rfl, ?_⟩⟩
        rintro first ⟨⟩
        exact ⟨hchange, heof⟩

def Between (place : Place) (chunks : List UpdateFileChunk) (rest : List Str) : Prop :=
  chunks = [] ∧ (place = .header ∨ place = .bare)
    ∨ chunks ≠ [] ∧ (place = .closed ∨ place = .lines ∧ Stops rest)

theorem parseChangeContext_eq_ok
    (h : parseChangeContext line n allow = .ok (context, start))
    : start = 1 ∧ line = contextLine context ∨ start = 0 ∧ context = none ∧ allow = true := by
  unfold parseChangeContext at h
  split at h
  . next hline =>
    rw [pure_eq_ok, Prod.mk.injEq] at h
    rw [← h.1, hline]
    exact .inl ⟨h.2.symm, rfl⟩
  . split at h
    . next text hline =>
      rw [isPrefixOf?_eq_some_iff_append_eq] at hline
      rw [pure_eq_ok, Prod.mk.injEq] at h
      rw [← h.1, ← hline]
      exact .inl ⟨h.2.symm, rfl⟩
    . rw [guard_eq_ok, pure_eq_ok, Prod.mk.injEq] at h
      exact .inr ⟨h.2.2.symm, h.2.1.symm, by simpa using h.1⟩

theorem changeLine_of_parseChunkLines (hlines : lines ≠ [])
    (h : parseChunkLines n chunk 0 lines = .ok (chunk', parsed))
    : ∃ line rest change, lines = line :: rest ∧ changeLine line = some change
      ∧ parseChunkLines n (chunk.push change) 1 rest = .ok (chunk', parsed) := by
  cases lines with
  | nil => contradiction
  | cons line lines =>
    rw [parseChunkLines] at h
    split at h
    . simp at h
    . split at h
      . next change hchange => exact ⟨line, lines, change, rfl, hchange, h⟩
      . simp at h

theorem layout_of_parseUpdateFileChunk (hplace : Between place chunks (line :: lines))
    (hblank : trim line ≠ [])
    (h : parseUpdateFileChunk (line :: lines) n chunks.isEmpty = .ok (chunk, parsed))
    : ∃ used rest place', line :: lines = used ++ rest ∧ parsed = used.length
      ∧ Layout place (init ++ [.updateFile path movePath chunks]) used
          place' (init ++ [.updateFile path movePath (chunks ++ [chunk])])
      ∧ (place' = .closed ∨ place' = .lines ∧ Stops rest) := by
  simp only [parseUpdateFileChunk, bind_eq_ok, guard_eq_ok, pure_eq_ok, Prod.mk.injEq] at h
  obtain ⟨⟨context, start⟩, hcontext, hstart, ⟨_, read⟩, hparse, hchunk, hparsed⟩ := h
  dsimp only at hstart hparse hchunk hparsed
  rw [hchunk] at hparse
  rcases parseChangeContext_eq_ok hcontext with ⟨hone, hline⟩ | ⟨hzero, hnone, hallow⟩
  . rw [hone, drop_succ_cons, drop_zero] at hparse
    have hne : lines ≠ [] := by
      intro hnil
      simp [hone, hnil] at hstart
    obtain ⟨first, more, change, hlines, hchange, hmore⟩ := changeLine_of_parseChunkLines hne hparse
    obtain ⟨used, rest, place', hused, hcount, hlayout, hend⟩ :=
      layout_of_parseChunkLines init path movePath chunks (by omega) hmore
    refine ⟨line :: first :: used, rest, place', by rw [hlines, hused]; rfl, ?_, ?_, hend⟩
    . simp only [length_cons]
      omega
    . rw [hline]
      apply Layout.cons (.marker ?_)
      . apply Layout.cons (.change (.inl rfl) hchange)
        rw [Item.apply_concat (by simp), Item.apply_concat (by simp), Item.edit, Item.edit,
          pushChange_concat]
        exact hlayout
      . rcases hplace with ⟨_, hplace⟩ | ⟨_, hplace | ⟨hplace, _⟩⟩
        . exact .inl hplace
        . exact .inr (.inr hplace)
        . exact .inr (.inl hplace)
  . have hnil : chunks = [] := by simpa using hallow
    rw [hzero, hnone, drop_zero] at hparse
    obtain ⟨first, more, change, hlines, hchange, hmore⟩ := changeLine_of_parseChunkLines (by simp) hparse
    cases hlines
    obtain ⟨used, rest, place', hused, hcount, hlayout, hend⟩ :=
      layout_of_parseChunkLines init path movePath [] (by omega) hmore
    refine ⟨line :: used, rest, place', by rw [hused]; rfl, ?_, ?_, hend⟩
    . simp only [length_cons]
      omega
    . rw [hnil]
      apply Layout.cons (.change (.inr (.inr ⟨?_, hblank⟩)) hchange)
      . rw [Item.apply_concat (by simp), Item.edit, pushChange_nil]
        exact hlayout
      . rcases hplace with ⟨_, hplace⟩ | ⟨hne, _⟩
        . exact hplace
        . contradiction

def StartsWithStar (rest : List Str) : Prop := ∀ line, rest.head? = some line → line.head? = some '*'

theorem layout_of_parseChunks {chunks' : List UpdateFileChunk} (hplace : Between place chunks lines)
    (h : parseChunks n chunks parsed lines = .ok (chunks', parsed'))
    : ∃ used rest place', lines = used ++ rest ∧ parsed' = parsed + used.length
      ∧ Layout place (init ++ [.updateFile path movePath chunks]) used
          place' (init ++ [.updateFile path movePath chunks'])
      ∧ Between place' chunks' rest ∧ StartsWithStar rest := by
  fun_induction parseChunks n chunks parsed lines generalizing place with
  | case1 chunks parsed =>
    rw [pure_eq_ok, Prod.mk.injEq] at h
    rw [← h.1]
    exact ⟨[], [], place, rfl, h.2.symm, .nil, hplace, by rintro line ⟨⟩⟩
  | case2 chunks parsed line rest hblank ih =>
    rw [List.isEmpty_iff] at hblank
    obtain ⟨mid, hread, hmid⟩ : ∃ mid, Reads place line .blank mid ∧ Between mid chunks rest := by
      rcases hplace with ⟨hnil, hplace⟩ | ⟨hne, hplace⟩
      . exact ⟨.bare, .blankBefore hplace hblank, .inl ⟨hnil, .inr rfl⟩⟩
      . refine ⟨.closed, .blankAfter ?_ hblank, .inr ⟨hne, .inl rfl⟩⟩
        rcases hplace with hplace | ⟨hplace, hstops⟩
        . exact .inl hplace
        . exact .inr ⟨hplace, (hstops line rfl).1⟩
    obtain ⟨used, rest', place', hrest, hcount, hlayout, hend⟩ := ih hmid h
    refine ⟨line :: used, rest', place', by rw [hrest]; rfl, ?_, ?_, hend⟩
    . rw [hcount, length_cons]
      omega
    . apply Layout.cons hread
      rw [Item.apply_concat (by simp)]
      exact hlayout
  | case3 chunks parsed line rest hblank hstar =>
    rw [pure_eq_ok, Prod.mk.injEq] at h
    rw [← h.1]
    refine ⟨[], line :: rest, place, rfl, h.2.symm, .nil, hplace, ?_⟩
    rintro first ⟨⟩
    exact hstar
  | case4 => simp [throw_eq_ok] at h
  | case5 chunks parsed line rest hblank hstar chunk chunkLines hchunk ih =>
    obtain ⟨used, rest', place', hlines, hcount, hlayout, hend⟩ :=
      layout_of_parseUpdateFileChunk init path movePath hplace (by simpa using hblank) hchunk
    rw [hlines, hcount, drop_left] at ih h
    have hbetween : Between place' (chunks ++ [chunk]) rest' := .inr ⟨by simp, hend⟩
    obtain ⟨used', rest'', place'', hrest, hcount', hlayout', hend'⟩ := ih hbetween h
    refine ⟨used ++ used', rest'', place'', ?_, ?_, hlayout.append hlayout', hend'⟩
    . rw [hlines, hrest, List.append_assoc]
    . rw [hcount', length_append]
      omega

end

end Chunks

section Hunks

def Ready (place : Place) (rest : List Str) : Prop :=
  place = .outside ∨ place = .adding ∨ (place = .lines ∨ place = .closed) ∧ StartsWithStar rest

variable {parsed n : Nat} {lines : List Str} {place : Place}

theorem layout_of_parseAddLines (init : List Hunk) (path : Str) {contents contents' : Str} {parsed' : Nat}
    (h : parseAddLines contents parsed lines = (contents', parsed'))
    : ∃ used rest, lines = used ++ rest ∧ parsed' = parsed + used.length
      ∧ Layout .adding (init ++ [.addFile path contents]) used
          .adding (init ++ [.addFile path contents']) := by
  induction lines generalizing contents parsed with
  | nil =>
    rw [parseAddLines, Prod.mk.injEq] at h
    rw [h.1]
    exact ⟨[], [], rfl, h.2.symm, .nil⟩
  | cons line lines ih =>
    rw [parseAddLines] at h
    split at h
    . next text hline =>
      rw [isPrefixOf?_eq_some_iff_append_eq] at hline
      obtain ⟨used, rest, hlines, hcount, hlayout⟩ := ih h
      refine ⟨line :: used, rest, by rw [hlines]; rfl, ?_, ?_⟩
      . rw [hcount, length_cons]
        omega
      . rw [← hline]
        apply Layout.cons .addLine
        rw [Item.apply_concat (by simp)]
        exact hlayout
    . rw [Prod.mk.injEq] at h
      rw [h.1]
      exact ⟨[], line :: lines, rfl, h.2.symm, .nil⟩

variable {line : Str} {hunk : Hunk}

theorem Ready.reads_header (h : Ready place (line :: lines)) (hopen : openHunk (trim line) = some hunk)
    : Reads place line (.header hunk) (.opened hunk) := by
  apply Reads.header _ hopen
  rcases h with h | h | ⟨h, hstar⟩
  . exact .inl h
  . exact .inr (.inl h)
  . exact .inr (.inr ⟨h, hstar line rfl⟩)

theorem layout_of_updateBody (hunks : List Hunk) (path : Str) {chunks : List UpdateFileChunk}
    {movePath : Option Str}
    (hmove : (lines.head?.bind fun line => moveToMarker.isPrefixOf? line) = movePath)
    (h : parseChunks n [] (1 + if movePath.isSome then 1 else 0)
      (lines.drop (if movePath.isSome then 1 else 0)) = .ok (chunks, parsed))
    (hchunks : chunks ≠ [])
    : ∃ used rest place', lines = used ++ rest ∧ parsed = 1 + used.length
      ∧ Layout .header (hunks ++ [.updateFile path none []]) used
          place' (hunks ++ [.updateFile path movePath chunks]) ∧ Ready place' rest := by
  have hready {place : Place} {rest : List Str} (h : Between place chunks rest)
      (hstar : StartsWithStar rest)
      : Ready place rest := by
    rcases h with ⟨hnil, _⟩ | ⟨_, hclosed | ⟨hlines, _⟩⟩
    . contradiction
    . exact .inr (.inr ⟨.inr hclosed, hstar⟩)
    . exact .inr (.inr ⟨.inl hlines, hstar⟩)
  cases movePath with
  | none =>
    have ⟨used, rest, place', hlines, hcount, hlayout, hbetween, hstar⟩ :=
      layout_of_parseChunks hunks path none (.inl ⟨rfl, .inl rfl⟩) h
    exact ⟨used, rest, place', hlines, hcount, hlayout, hready hbetween hstar⟩
  | some dest =>
    cases lines with
    | nil => cases hmove
    | cons line lines =>
      have hline : moveToMarker ++ dest = line := by
        rw [← isPrefixOf?_eq_some_iff_append_eq]
        exact hmove
      have ⟨used, rest, place', hlines, hcount, hlayout, hbetween, hstar⟩ :=
        layout_of_parseChunks hunks path (some dest) (.inl ⟨rfl, .inr rfl⟩) h
      refine ⟨line :: used, rest, place', ?_, ?_, ?_, hready hbetween hstar⟩
      . rw [cons_append, ← hlines]
        rfl
      . rw [hcount, length_cons, Option.isSome_some, if_pos rfl]
        omega
      . rw [← hline]
        apply Layout.cons .moveTo
        rw [Item.apply_concat (by simp)]
        exact hlayout

theorem layout_of_parseOneHunk (hunks : List Hunk) (hplace : Ready place (line :: lines))
    (h : parseOneHunk line lines n = .ok (hunk, parsed))
    : ∃ used rest place', line :: lines = used ++ rest ∧ parsed = used.length
      ∧ Layout place hunks used place' (hunks ++ [hunk]) ∧ Ready place' rest := by
  have hread {hunk : Hunk} (hopen : openHunk (trim line) = some hunk) := hplace.reads_header hopen
  unfold openHunk at hread
  unfold parseOneHunk at h
  dsimp only at h
  cases hadd : addFileMarker.isPrefixOf? (trim line) with
  | some path =>
    rw [hadd] at hread h
    rw [pure_eq_ok, Prod.mk.injEq] at h
    have ⟨used, rest, hlines, hcount, hlayout⟩ :=
      layout_of_parseAddLines hunks path (Prod.eta (parseAddLines [] 1 lines)).symm
    refine ⟨line :: used, rest, .adding, by rw [hlines]; rfl, ?_, ?_, .inr (.inl rfl)⟩
    . rw [← h.2, hcount, length_cons]
      omega
    . rw [← h.1]
      exact .cons (hread rfl) hlayout
  | none =>
    rw [hadd] at hread h
    cases hdelete : deleteFileMarker.isPrefixOf? (trim line) with
    | some path =>
      rw [hdelete] at hread h
      rw [pure_eq_ok, Prod.mk.injEq] at h
      refine ⟨[line], lines, .outside, rfl, h.2.symm, ?_, .inl rfl⟩
      rw [← h.1]
      exact .cons (hread rfl) .nil
    | none =>
      rw [hdelete] at hread h
      cases hupdate : updateFileMarker.isPrefixOf? (trim line) with
      | none =>
        rw [hupdate] at h
        simp [throw_eq_ok] at h
      | some path =>
        rw [hupdate] at hread h
        simp only [bind_eq_ok, guard_eq_ok, pure_eq_ok, Prod.mk.injEq] at h
        have ⟨(chunks, read), hparse, hne, hhunk, hread'⟩ := h
        have ⟨used, rest, place', hlines, hcount, hlayout, hready⟩ :=
          layout_of_updateBody hunks path rfl hparse (by simpa using hne)
        refine ⟨line :: used, rest, place', by rw [hlines]; rfl, ?_, ?_, hready⟩
        . rw [← hread', hcount, length_cons]
          omega
        . rw [← hhunk]
          exact .cons (hread rfl) hlayout

theorem layout_of_parseHunks (hplace : Ready place lines)
    (h : parseHunks hunks n lines = .ok hunks')
    : ∃ place', Layout place hunks lines place' hunks' ∧ Ready place' [] := by
  fun_induction parseHunks hunks n lines generalizing place with
  | case1 hunks n =>
    rw [pure_eq_ok] at h
    rw [h]
    exact ⟨place, .nil, hplace⟩
  | case2 => simp [throw_eq_ok] at h
  | case3 hunks n line lines hunk hunkLines hhunk ih =>
    have ⟨used, rest, mid, hlines, hcount, hlayout, hready⟩ := layout_of_parseOneHunk hunks hplace hhunk
    rw [hlines, hcount, drop_left] at ih h
    have ⟨place', hlayout', hready'⟩ := ih hready h
    refine ⟨place', ?_, hready'⟩
    rw [hlines]
    exact hlayout.append hlayout'

end Hunks

end Codex.ApplyPatch
