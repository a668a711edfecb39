import AppSuite.Codex.ApplyPatch.StreamingReads

/-!
This module contains the steps of the streaming parser over the lines of a layout: once a line
differs, its hunks are heavier than those of the layout ever after.
-/

namespace Codex.ApplyPatch

open ExceptFold StreamingPatchParser Item Place

section Steps

variable {place place' : Place} {line : Str} {item item' : Item} {p p' : StreamingPatchParser}
  {init : List Hunk} {path : Str} {movePath : Option Str} {chunks : List UpdateFileChunk} {hunk : Hunk}

def Place.ModeAt : Place → StreamingParserMode → Prop
  | .outside, mode => mode = .startedPatch ∨ mode = .deleteFile
  | .adding, mode => mode = .addFile
  | _, mode => ∃ n, mode = .updateFile n

def Place.Holds (place : Place) (hunks : List Hunk) : Prop :=
  match place with
  | .outside => True
  | .adding => ∃ init path contents, hunks = init ++ [.addFile path contents]
  | _ => ∃ init path movePath chunks, hunks = init ++ [.updateFile path movePath chunks]
      ∧ (place = .header → movePath = none ∧ chunks = [])

structure Tracks (p : StreamingPatchParser) (place : Place) : Prop where
  mode : place.ModeAt p.mode
  hunks : place.Holds p.hunks

def Item.Allowed (item : Item) (chunks : List UpdateFileChunk) : Prop :=
  match item with
  | .marker _ => lastHasNoLines chunks = false
  | .endOfFile => lastHasNoLines chunks = false
  | _ => True

variable {chunks' : List UpdateFileChunk} {hunks : List Hunk} {change : ChangeLine}

theorem processChunkLine_marker
    : p.processChunkLine chunks (contextLine context) = .ok chunks'
      ↔ lastHasNoLines chunks = false
          ∧ chunks' = chunks ++ [⟨streamedContext context, [], [], false⟩] := by
  have hmarker (context : Option Str)
      : contextLine context = emptyChangeContextMarker ∨ changeContextMarker <+: contextLine context := by
    cases context with
    | none => exact .inl rfl
    | some text => exact .inr (List.prefix_append ..)
  unfold processChunkLine
  rw [trimEnd_contextLine, guard_eq_ok, and_iff_right (hmarker _), Bool.not_eq_true, eq_comm (a := chunks')]
  cases streamedContext context with
  | none => rw [if_pos (by rfl), pure_eq_ok]
  | some text =>
    have hne : contextLine (some text) ≠ emptyChangeContextMarker := by rintro ⟨⟩
    have hprefix : changeContextMarker.isPrefixOf? (contextLine (some text)) = some text :=
      List.isPrefixOf?_eq_some_iff_append_eq.mpr rfl
    rw [if_neg hne, hprefix]
    rw [pure_eq_ok]

theorem processChunkLine_of_not_marker (hempty : trimEnd line ≠ emptyChangeContextMarker)
    (hcontext : ¬changeContextMarker <+: trimEnd line) (heof : trimEnd line ≠ eofMarker)
    : p.processChunkLine chunks line = .ok chunks'
      ↔ ∃ change, changeLine line = some change ∧ chunks' = pushChange chunks change := by
  unfold processChunkLine
  rw [if_neg (by simp [hempty, hcontext]), if_neg hempty, isPrefixOf?_eq_none hcontext]
  rw [if_neg heof]
  cases changeLine line with
  | none => simp [throw_eq_ok]
  | some change =>
    rw [pure_eq_ok, eq_comm (a := pushChange chunks change)]
    simp

theorem processChunkLine_endOfFile
    : p.processChunkLine chunks eofMarker = .ok chunks'
      ↔ lastHasNoLines chunks = false ∧ chunks' = markEndOfFile chunks := by
  have htrim : trimEnd eofMarker = eofMarker := by decide
  have hmarker : ¬(eofMarker = emptyChangeContextMarker ∨ changeContextMarker <+: eofMarker) := by decide
  have hcontext : changeContextMarker.isPrefixOf? eofMarker = none := by decide
  unfold processChunkLine
  rw [htrim, if_neg (fun h => hmarker h.1), if_neg (by decide), hcontext]
  rw [if_pos rfl, guard_eq_ok, pure_eq_ok, Bool.not_eq_true, eq_comm (a := chunks')]

theorem processUpdateLine_of_not_moveTo (h : ¬moveToMarker <+: trimEnd line)
    : p.processUpdateLine path movePath chunks line = .ok hunk
      ↔ ∃ chunks', p.processChunkLine chunks line = .ok chunks'
          ∧ hunk = .updateFile path movePath chunks' := by
  unfold processUpdateLine
  rw [isPrefixOf?_eq_none h, ite_self]
  simp only [bind_eq_ok, pure_eq_ok, eq_comm (b := hunk)]

theorem processUpdateLine_plain (hstar : line.head? ≠ some '*') (hat : line.head? ≠ some '@')
    : p.processUpdateLine path movePath chunks line = .ok hunk
      ↔ ∃ change, changeLine line = some change
          ∧ hunk = .updateFile path movePath (pushChange chunks change) := by
  have hstar' : (trimEnd line).head? ≠ some '*' := fun h => hstar (head?_trimEnd h)
  have hat' : (trimEnd line).head? ≠ some '@' := fun h => hat (head?_trimEnd h)
  have hempty : trimEnd line ≠ emptyChangeContextMarker := by
    intro heq
    rw [heq] at hat'
    contradiction
  have heof : trimEnd line ≠ eofMarker := by
    intro heq
    rw [heq] at hstar'
    contradiction
  simp only [processUpdateLine_of_not_moveTo (not_isPrefix_of_head? rfl hstar'),
    processChunkLine_of_not_marker hempty (not_isPrefix_of_head? rfl hat') heof]
  constructor
  . rintro ⟨chunks', ⟨change, hchange, hchunks⟩, hhunk⟩
    exact ⟨change, hchange, by rw [hhunk, hchunks]⟩
  . rintro ⟨change, hchange, hhunk⟩
    exact ⟨_, ⟨change, hchange, rfl⟩, hhunk⟩

variable {dest text : Str} {n : Nat}

theorem processUpdateLine_moveTo
    : p.processUpdateLine path none [] (moveToMarker ++ dest) = .ok hunk
      ↔ ∃ dest', moveToMarker.isPrefixOf? (trimEnd (moveToMarker ++ dest)) = some dest'
          ∧ hunk = .updateFile path (some dest') [] := by
  by_cases hmove : moveToMarker <+: trimEnd (moveToMarker ++ dest)
  . have ⟨dest', hdest⟩ := hmove
    rw [← List.isPrefixOf?_eq_some_iff_append_eq] at hdest
    unfold processUpdateLine
    rw [hdest]
    simp [pure, Except.pure, eq_comm]
  . have hempty : trimEnd (moveToMarker ++ dest) ≠ emptyChangeContextMarker := by
      rw [trimEnd_moveToMarker_append]
      rintro ⟨⟩
    have heof : trimEnd (moveToMarker ++ dest) ≠ eofMarker := by
      rw [trimEnd_moveToMarker_append]
      rintro ⟨⟩
    have hcontext : ¬changeContextMarker <+: trimEnd (moveToMarker ++ dest) := by
      rw [trimEnd_moveToMarker_append]
      apply not_isPrefix_of_head? (c := '@') rfl
      rintro ⟨⟩
    have hchange : changeLine (moveToMarker ++ dest) = none := rfl
    simp only [processUpdateLine_of_not_moveTo hmove, processChunkLine_of_not_marker hempty hcontext heof,
      hchange, isPrefixOf?_eq_none hmove]
    simp

theorem processUpdateLine_blank (hblank : trim line = [])
    : p.processUpdateLine path movePath chunks line = .ok hunk
      ↔ blank.Allowed chunks ∧ ∃ item', blank.streamed line = some item'
          ∧ hunk = item'.edit (.updateFile path movePath chunks) := by
  rw [processUpdateLine_plain (head?_ne_of_trim_eq_nil rfl hblank) (head?_ne_of_trim_eq_nil rfl hblank)]
  simp [Allowed, streamed, edit]

theorem Reads.processUpdateLine_eq_ok_iff (h : Reads place line item place')
    (hitem : item.isUpdate = true) (hheader : place = .header → movePath = none ∧ chunks = [])
    : p.processUpdateLine path movePath chunks line = .ok hunk
      ↔ item.Allowed chunks ∧ ∃ item', item.streamed line = some item'
          ∧ hunk = item'.edit (.updateFile path movePath chunks) := by
  cases h with
  | header _ _ | addLine => cases hitem
  | moveTo =>
    have ⟨hmove, hchunks⟩ := hheader rfl
    rw [hmove, hchunks, processUpdateLine_moveTo]
    simp only [Allowed, streamed, true_and, Option.map_eq_some_iff]
    constructor
    . rintro ⟨dest', hdest, hhunk⟩
      exact ⟨_, ⟨dest', hdest, rfl⟩, hhunk⟩
    . rintro ⟨_, ⟨dest', hdest, rfl⟩, hhunk⟩
      exact ⟨dest', hdest, hhunk⟩
  | blankBefore _ hblank | blankAfter _ hblank => exact processUpdateLine_blank hblank
  | @marker _ context _ =>
    have hstar : (trimEnd (contextLine context)).head? ≠ some '*' := by
      rw [trimEnd_contextLine]
      cases streamedContext context <;> rintro ⟨⟩
    simp only [processUpdateLine_of_not_moveTo (not_isPrefix_of_head? rfl hstar),
      processChunkLine_marker, Allowed, streamed, Option.some.injEq]
    simp [edit]
  | @change _ _ change _ hchange =>
    rw [processUpdateLine_plain]
    . simp [Allowed, streamed, edit, hchange]
    . exact head?_ne_of_changeLine hchange (by decide)
    . exact head?_ne_of_changeLine hchange (by decide)
  | endOfFile =>
    have hmove : ¬moveToMarker <+: trimEnd eofMarker := by decide
    simp only [processUpdateLine_of_not_moveTo hmove, processChunkLine_endOfFile, Allowed,
      streamed, Option.some.injEq]
    simp [edit]

theorem Place.Holds.updateFile (h : place.Holds hunks) (hupdate : place.inUpdate = true)
    : ∃ init path movePath chunks, hunks = init ++ [.updateFile path movePath chunks]
      ∧ (place = .header → movePath = none ∧ chunks = []) := by
  cases place with
  | outside | adding => cases hupdate
  | _ => exact h

theorem Place.ModeAt.updateFile {mode : StreamingParserMode} (h : place.ModeAt mode)
    (hupdate : place.inUpdate = true)
    : ∃ n, mode = .updateFile n := by
  cases place with
  | outside | adding => cases hupdate
  | _ => exact h

theorem Reads.tracks_of_isUpdate (h : Reads place line item place') (hitem : item.isUpdate = true)
    (hmode : p.mode = .updateFile n) (hhunks : p.hunks = init ++ [.updateFile path movePath chunks])
    : Tracks p place' := by
  cases h with
  | header _ _ | addLine => cases hitem
  | _ => exact ⟨⟨n, hmode⟩, init, path, movePath, chunks, hhunks, nofun⟩

theorem Item.isUpdate_of_streamed (h : item.streamed line = some item') (hitem : item.isUpdate = true)
    : item'.isUpdate = true := by
  cases item with
  | header _ | addLine _ => cases hitem
  | moveTo _ | blank =>
    have ⟨_, _, heq⟩ := Option.map_eq_some_iff.mp h
    rw [← heq]
    rfl
  | _ =>
    cases h
    rfl

theorem Item.apply_of_isUpdate (h : item.isUpdate = true)
    : item.apply (init ++ [hunk]) = init ++ [item.edit hunk] := by
  apply apply_concat
  intro hunk heq
  rw [heq] at h
  cases h

theorem Item.edit_updateFile (item : Item) (path : Str) (movePath : Option Str)
    (chunks : List UpdateFileChunk)
    : ∃ movePath' chunks',
      item.edit (.updateFile path movePath chunks) = .updateFile path movePath' chunks' := by
  cases item <;> exact ⟨_, _, rfl⟩

theorem Reads.processLine_update (h : Reads place line item place') (hitem : item.isUpdate = true)
    (hmode : p.mode = .updateFile n) (hhunks : p.hunks = init ++ [.updateFile path movePath chunks])
    (hheader : place = .header → movePath = none ∧ chunks = [])
    : p.processLine line = .ok p'
        ↔ item.Allowed chunks ∧ ∃ item', item.streamed line = some item'
            ∧ p' = { p with hunks := item'.apply p.hunks } := by
  have hnone : ∀ hunk, item ≠ .header hunk := by
    intro hunk heq
    rw [heq] at hitem
    cases hitem
  have ⟨hopen, hend⟩ := h.text_ne hnone
  rw [text_of_inUpdate (h.inUpdate hitem)] at hopen hend
  have hhandle := handleHunkHeadersAndEndPatch_eq_none (p := p) hend hopen
  have hlast : p.hunks.getLast? = some (.updateFile path movePath chunks) := by simp [hhunks]
  rw [processLine_eq_ok_of_updateFile hmode, hhandle]
  constructor
  . rintro (hsome | ⟨_, path', movePath', chunks', hunk, hlast', hprocess, hset⟩)
    . cases hsome
    . rw [hlast] at hlast'
      cases hlast'
      have ⟨hallowed, item', hstreamed, hhunk⟩ :=
        (h.processUpdateLine_eq_ok_iff hitem hheader).mp hprocess
      refine ⟨hallowed, item', hstreamed, ?_⟩
      rw [hset, hhunks, apply_of_isUpdate (isUpdate_of_streamed hstreamed hitem), hhunk,
        setLast, hhunks, List.dropLast_concat]
  . rintro ⟨hallowed, item', hstreamed, hset⟩
    refine .inr ⟨rfl, path, movePath, chunks, _, hlast,
      (h.processUpdateLine_eq_ok_iff hitem hheader).mpr ⟨hallowed, item', hstreamed, rfl⟩, ?_⟩
    rw [hset, hhunks, apply_of_isUpdate (isUpdate_of_streamed hstreamed hitem),
      setLast, hhunks, List.dropLast_concat]

theorem Place.ModeAt.processLine_of_handled (hmode : place.ModeAt p.mode)
    (hhandle : p.handleHunkHeadersAndEndPatch (place.text line) ≠ .ok none)
    : p.processLine line = .ok p'
      ↔ p.handleHunkHeadersAndEndPatch (place.text line) = .ok (some p') := by
  have hor {q : Prop} : (p.handleHunkHeadersAndEndPatch (place.text line) = .ok (some p')
        ∨ p.handleHunkHeadersAndEndPatch (place.text line) = .ok none ∧ q)
      ↔ p.handleHunkHeadersAndEndPatch (place.text line) = .ok (some p') := by
    simp [hhandle]
  cases place with
  | outside => exact processLine_eq_ok_of_trimmed hmode
  | adding => exact (processLine_eq_ok_of_addFile hmode).trans hor
  | _ =>
    have ⟨n, hmode⟩ := hmode
    exact (processLine_eq_ok_of_updateFile hmode).trans hor

theorem Reads.processLine_header (h : Reads place line (.header hunk) place')
    (hmode : place.ModeAt p.mode)
    : p.processLine line = .ok p'
      ↔ p.ensureUpdateHunkIsNotEmpty (place.text line) = .ok () ∧ p' = p.enterHunk hunk := by
  have hopen := h.openHunk_text
  have hend : place.text line ≠ endPatchMarker := by
    intro heq
    rw [heq] at hopen
    cases hopen
  rw [hmode.processLine_of_handled, handleHunkHeadersAndEndPatch_eq_some_iff, hopen]
  . simp [hend, eq_comm]
  . rw [handleHunkHeadersAndEndPatch_eq, if_neg hend, hopen]
    rw [ne_eq, unit_bind_eq_ok, pure_eq_ok]
    simp

theorem processLine_endPatch (hmode : place.ModeAt p.mode) (hend : place.text line = endPatchMarker)
    : p.processLine line = .ok p'
        ↔ p.ensureUpdateHunkIsNotEmpty endPatchMarker = .ok () ∧ p' = { p with mode := .endedPatch } := by
  have hopen : openHunk endPatchMarker = none := by decide
  rw [hmode.processLine_of_handled, handleHunkHeadersAndEndPatch_eq_some_iff, hend]
  . simp [hopen]
  . rw [handleHunkHeadersAndEndPatch_eq, if_pos hend, ne_eq, unit_bind_eq_ok,
      pure_eq_ok]
    simp

theorem Reads.processLine_addLine (h : Reads place line (.addLine text) place')
    (hmode : p.mode = .addFile) (hhunks : p.hunks = init ++ [.addFile path contents])
    : p.processLine line = .ok { p with hunks := (Item.addLine text).apply p.hunks } := by
  have ⟨hopen, hend⟩ := h.text_ne (by simp)
  cases h with
  | addLine =>
    rw [processLine_eq_ok_of_addFile hmode]
    refine .inr ⟨handleHunkHeadersAndEndPatch_eq_none hend hopen, text, path,
      contents, rfl, by simp [hhunks], ?_⟩
    simp [setLast, hhunks, apply, edit]

theorem tracks_enterHunk (h : openHunk text = some hunk) : Tracks (p.enterHunk hunk) (.opened hunk) := by
  cases hunk with
  | addFile path contents => exact ⟨rfl, p.hunks, path, contents, rfl⟩
  | deleteFile path => exact ⟨.inr rfl, trivial⟩
  | updateFile path movePath chunks =>
    exact ⟨⟨p.lineNumber, rfl⟩, p.hunks, path, movePath, chunks, rfl, fun _ => openHunk_updateFile h⟩

theorem Reads.step (h : Reads place line item place') (htracks : Tracks p place)
    (hline : p.processLine line = .ok p')
    : ∃ item', item.streamed line = some item' ∧ p'.hunks = item'.apply p.hunks ∧ Tracks p' place' := by
  cases hitem : item.isUpdate with
  | true =>
    have hupdate := h.inUpdate hitem
    have ⟨n, hmode⟩ := htracks.mode.updateFile hupdate
    have ⟨init, path, movePath, chunks, hhunks, hheader⟩ := htracks.hunks.updateFile hupdate
    have ⟨_, item', hstreamed, hset⟩ := (h.processLine_update hitem hmode hhunks hheader).mp hline
    have hitem' := isUpdate_of_streamed hstreamed hitem
    have ⟨movePath', chunks', hedit⟩ := item'.edit_updateFile path movePath chunks
    have hhunks' : item'.apply p.hunks = init ++ [.updateFile path movePath' chunks'] := by
      rw [hhunks, apply_of_isUpdate hitem', hedit]
    rw [hset]
    exact ⟨item', hstreamed, rfl, h.tracks_of_isUpdate hitem hmode hhunks'⟩
  | false =>
    cases item with
    | header hunk =>
      have ⟨_, hset⟩ := (h.processLine_header htracks.mode).mp hline
      rw [hset]
      refine ⟨_, rfl, rfl, ?_⟩
      cases h with
      | header _ hopen => exact tracks_enterHunk hopen
    | addLine text =>
      cases h with
      | addLine =>
        have ⟨init, path, contents, hhunks⟩ := htracks.hunks
        rw [Reads.addLine.processLine_addLine htracks.mode hhunks] at hline
        cases hline
        refine ⟨_, rfl, rfl, htracks.mode, init, path, contents ++ text ++ ['\n'], ?_⟩
        simp [hhunks, apply, edit]
    | _ => cases hitem

def Place.Solid (place : Place) (hunks : List Hunk) : Prop :=
  match place with
  | .outside => ∀ path movePath chunks, hunks.getLast? ≠ some (.updateFile path movePath chunks)
  | .adding => ∃ init path contents, hunks = init ++ [.addFile path contents]
  | _ => ∃ init path movePath chunks, hunks = init ++ [.updateFile path movePath chunks]
      ∧ (place = .header → movePath = none) ∧ (place = .header ∨ place = .bare → chunks = [])
      ∧ (place = .lines ∨ place = .closed → chunks ≠ [] ∧ lastHasNoLines chunks = false)

theorem lastHasNoLines_pushChange
    : pushChange chunks change ≠ [] ∧ lastHasNoLines (pushChange chunks change) = false := by
  cases chunks using List.reverseRecOn with
  | nil => cases change <;> exact ⟨by simp, rfl⟩
  | append_singleton chunks chunk =>
    cases change <;> simp [lastHasNoLines, UpdateFileChunk.hasNoLines, UpdateFileChunk.push]

theorem lastHasNoLines_markEndOfFile (h : chunks ≠ [])
    : markEndOfFile chunks ≠ [] ∧ lastHasNoLines (markEndOfFile chunks) = lastHasNoLines chunks := by
  cases chunks using List.reverseRecOn with
  | nil => contradiction
  | append_singleton chunks chunk =>
    simp [lastHasNoLines, UpdateFileChunk.hasNoLines]

theorem Place.Solid.updateFile (h : place.Solid hunks) (hupdate : place.inUpdate = true)
    : ∃ init path movePath chunks, hunks = init ++ [.updateFile path movePath chunks]
      ∧ (place = .header → movePath = none) ∧ (place = .header ∨ place = .bare → chunks = [])
      ∧ (place = .lines ∨ place = .closed → chunks ≠ [] ∧ lastHasNoLines chunks = false) := by
  cases place with
  | outside | adding => cases hupdate
  | _ => exact h

theorem Reads.solid (h : Reads place line item place') (hsolid : place.Solid hunks)
    : place'.Solid (item.apply hunks) := by
  cases hitem : item.isUpdate with
  | true =>
    obtain ⟨init, path, movePath, chunks, hhunks, _, hbare, hlines⟩ := hsolid.updateFile (h.inUpdate hitem)
    rw [hhunks, apply_of_isUpdate hitem]
    cases h with
    | header _ _ | addLine => cases hitem
    | moveTo => exact ⟨init, path, _, chunks, rfl, nofun, fun _ => hbare (.inl rfl), by simp⟩
    | blankBefore hplace _ =>
      exact ⟨init, path, movePath, chunks, rfl, nofun, fun _ => hbare hplace, by simp⟩
    | blankAfter hplace _ =>
      refine ⟨init, path, movePath, chunks, rfl, nofun, by simp, fun _ => hlines ?_⟩
      rcases hplace with hplace | ⟨hplace, _⟩
      . exact .inr hplace
      . exact .inl hplace
    | marker _ => exact ⟨init, path, movePath, _, rfl, by simp⟩
    | change _ _ => exact ⟨init, path, movePath, _, rfl, nofun, by simp, fun _ => lastHasNoLines_pushChange⟩
    | endOfFile =>
      obtain ⟨hne, hlast⟩ := hlines (.inl rfl)
      obtain ⟨hne', hlast'⟩ := lastHasNoLines_markEndOfFile hne
      exact ⟨init, path, movePath, _, rfl, nofun, by simp, fun _ => ⟨hne', by rw [hlast', hlast]⟩⟩
  | false =>
    cases h with
    | @header _ _ hunk _ hopen =>
      cases hunk with
      | addFile path contents => exact ⟨hunks, path, contents, rfl⟩
      | deleteFile path => simp [opened, Solid, apply]
      | updateFile path movePath chunks =>
        obtain ⟨hmove, hchunks⟩ := openHunk_updateFile hopen
        exact ⟨hunks, path, movePath, chunks, rfl, fun _ => hmove, fun _ => hchunks, by simp [opened]⟩
    | @addLine text =>
      obtain ⟨init, path, contents, hhunks⟩ := hsolid
      refine ⟨init, path, contents ++ text ++ ['\n'], ?_⟩
      rw [hhunks, apply_concat (by simp)]
      rfl
    | _ => cases hitem

theorem ensureUpdateHunkIsNotEmpty_eq_ok
    (h : ∀ path movePath chunks, p.hunks.getLast? = some (.updateFile path movePath chunks) →
      chunks ≠ [] ∧ lastHasNoLines chunks = false)
    : p.ensureUpdateHunkIsNotEmpty line = .ok () := by
  unfold ensureUpdateHunkIsNotEmpty
  split
  . next path movePath chunks hlast =>
    have ⟨hne, hlines⟩ := h path movePath chunks hlast
    split
    . contradiction
    . rw [if_neg (by simp [hlines])]
      rfl
  . rfl

theorem Place.Solid.ensure (h : place.Solid p.hunks)
    (hplace : place = .outside ∨ place = .adding ∨ place = .lines ∨ place = .closed)
    : p.ensureUpdateHunkIsNotEmpty line = .ok () := by
  apply ensureUpdateHunkIsNotEmpty_eq_ok
  intro path movePath chunks hlast
  rcases hplace with hplace | hplace | hplace
  . rw [hplace] at h
    exact (h path movePath chunks hlast).elim
  . rw [hplace] at h
    have ⟨_, _, _, hhunks⟩ := h
    simp [hhunks] at hlast
  . have hupdate : place.inUpdate = true := by
      rcases hplace with hplace | hplace <;> rw [hplace] <;> rfl
    have ⟨_, _, _, _, hhunks, _, _, hlines⟩ := h.updateFile hupdate
    rw [hhunks, List.getLast?_concat] at hlast
    cases hlast
    exact hlines hplace

theorem Reads.allowed (h : Reads place line item place')
    (hbare : place = .header ∨ place = .bare → chunks = [])
    (hlines : place = .lines ∨ place = .closed → chunks ≠ [] ∧ lastHasNoLines chunks = false)
    : item.Allowed chunks := by
  cases h with
  | marker hplace =>
    rcases hplace with hplace | hplace
    . rw [hbare hplace]
      rfl
    . exact (hlines hplace).2
  | endOfFile => exact (hlines (.inl rfl)).2
  | _ => trivial

theorem Reads.progress (h : Reads place line item place') (htracks : Tracks p place)
    (hsolid : place.Solid p.hunks) (hstreamed : item.streamed line = some item')
    : ∃ p', p.processLine line = .ok p' := by
  cases hitem : item.isUpdate with
  | true =>
    have hupdate := h.inUpdate hitem
    have ⟨n, hmode⟩ := htracks.mode.updateFile hupdate
    have ⟨init, path, movePath, chunks, hhunks, hnone, hbare, hlines⟩ := hsolid.updateFile hupdate
    have hheader (heq : place = .header) : movePath = none ∧ chunks = [] :=
      ⟨hnone heq, hbare (.inl heq)⟩
    exact ⟨_, (h.processLine_update hitem hmode hhunks hheader).mpr
      ⟨h.allowed hbare hlines, item', hstreamed, rfl⟩⟩
  | false =>
    cases item with
    | header hunk =>
      refine ⟨_, (h.processLine_header htracks.mode).mpr ⟨hsolid.ensure ?_, rfl⟩⟩
      cases h with
      | header hplace _ =>
        rcases hplace with hplace | hplace | ⟨hplace, _⟩
        . exact .inl hplace
        . exact .inr (.inl hplace)
        . exact .inr (.inr hplace)
    | addLine text =>
      cases h with
      | addLine =>
        have ⟨init, path, contents, hhunks⟩ := htracks.hunks
        exact ⟨_, Reads.addLine.processLine_addLine htracks.mode hhunks⟩
    | _ => cases hitem

@[simp]
theorem weight_concat : weight (init ++ [hunk]) = weight init + hunk.weight := by
  simp [weight]

theorem weight_push {chunk : UpdateFileChunk}
    : (chunk.push change).weight = chunk.weight + change.weight := by
  cases change <;> simp [UpdateFileChunk.push, UpdateFileChunk.weight, ChangeLine.weight] <;> omega

theorem sum_weight_pushChange
    : ((pushChange chunks change).map (·.weight)).sum
      = (chunks.map (·.weight)).sum + change.weight := by
  cases chunks using List.reverseRecOn with
  | nil => cases change <;> rfl
  | append_singleton chunks chunk =>
    simp [weight_push, Int.add_assoc]

theorem sum_weight_markEndOfFile
    : ((markEndOfFile chunks).map (·.weight)).sum = (chunks.map (·.weight)).sum := by
  cases chunks using List.reverseRecOn with
  | nil => rfl
  | append_singleton chunks chunk =>
    simp [UpdateFileChunk.weight]

theorem Item.weight_edit (h : item.isUpdate = true) (hmove : ∀ dest, item = .moveTo dest → movePath = none)
    : (item.edit (.updateFile path movePath chunks)).weight
      = (Hunk.updateFile path movePath chunks).weight + item.weight := by
  cases item with
  | header _ | addLine _ => cases h
  | moveTo dest =>
    rw [hmove dest rfl]
    simp [edit, Hunk.weight, weight, cost]
    omega
  | blank => simp [edit, weight]
  | marker context =>
    simp [edit, Hunk.weight, weight, UpdateFileChunk.weight]
    omega
  | change change =>
    simp only [edit, Hunk.weight, weight, sum_weight_pushChange]
    omega
  | endOfFile => simp [edit, Hunk.weight, weight, sum_weight_markEndOfFile]

theorem Reads.place_of_moveTo (h : Reads place line item place')
    (hitem : item = .moveTo dest ∨ item.streamed line = some (.moveTo dest))
    : place = .header := by
  cases h with
  | moveTo => rfl
  | _ => simp [streamed] at hitem

theorem Reads.weight_apply (h : Reads place line item place') (hholds : place.Holds hunks)
    (hitem' : item = item' ∨ item.streamed line = some item')
    : weight (item'.apply hunks) = weight hunks + item'.weight := by
  cases hitem : item.isUpdate with
  | true =>
    have ⟨init, path, movePath, chunks, hhunks, hheader⟩ := hholds.updateFile (h.inUpdate hitem)
    have hupdate : item'.isUpdate = true := by
      cases hitem' with
      | inl heq => rw [← heq, hitem]
      | inr hstreamed => exact isUpdate_of_streamed hstreamed hitem
    rw [hhunks, apply_of_isUpdate hupdate, weight_concat, weight_concat, weight_edit hupdate,
      Int.add_assoc]
    intro dest hdest
    rw [hdest] at hitem'
    exact (hheader (h.place_of_moveTo hitem')).1
  | false =>
    have hsame : item = item' := by
      cases hitem' with
      | inl heq => exact heq
      | inr hstreamed =>
        cases item with
        | header _ | addLine _ => exact Option.some.inj hstreamed
        | _ => cases hitem
    rw [← hsame]
    cases h with
    | header _ _ => exact weight_concat
    | addLine =>
      have ⟨init, path, contents, hhunks⟩ := hholds
      rw [hhunks, Item.apply_concat (by simp), weight_concat, weight_concat]
      simp [Item.edit, Hunk.weight, Item.weight]
    | _ => cases hitem

theorem Place.Solid.holds (h : place.Solid hunks) : place.Holds hunks := by
  cases place with
  | outside => trivial
  | adding => exact h
  | _ =>
    obtain ⟨init, path, movePath, chunks, hhunks, hmove, hchunks, _⟩ := h
    exact ⟨init, path, movePath, chunks, hhunks, fun h => ⟨hmove h, hchunks (.inl h)⟩⟩

end Steps

section Runs

variable {place place' : Place} {hunks hunks' : List Hunk} {lines : List Str}
  {p p' : StreamingPatchParser}

section

variable (h : Layout place hunks lines place' hunks')

include h

theorem Layout.solid (hsolid : place.Solid hunks) : place'.Solid hunks' := by
  induction h with
  | nil => assumption
  | cons hline _ ih =>
    apply ih
    exact hline.solid hsolid

theorem Layout.run_of_walk
    (hwalk : place.walk lines = some last) (hsolid : place.Solid hunks) (htracks : Tracks p place)
    (hhunks : p.hunks = hunks)
    : last = place' ∧ ∃ p', lines.foldlM readLine p = .ok p'
      ∧ p'.hunks = hunks' ∧ Tracks p' place' := by
  induction h generalizing p with
  | nil =>
    cases hwalk
    exact ⟨rfl, p, rfl, hhunks, htracks⟩
  | @cons place mid place' hunks hunks' line lines item hline hlines ih =>
    rw [walk] at hwalk
    split at hwalk
    . cases hwalk
    . next hdiffers =>
      rw [hline.next_eq] at hwalk
      have hstreamed := hline.streamed_eq (by simpa using hdiffers)
      have hbegin : Tracks p.takeLine place :=
        ⟨htracks.mode, htracks.hunks⟩
      have htake : p.takeLine.hunks = hunks := hhunks
      have ⟨q, hq⟩ := hline.progress hbegin (by rw [htake]; exact hsolid) hstreamed
      have ⟨item', hitem', hhunks', htracks'⟩ := hline.step hbegin hq
      rw [hstreamed] at hitem'
      cases hitem'
      rw [htake] at hhunks'
      have ⟨hlast, p', hrun, hp'⟩ := ih hwalk (hline.solid hsolid) htracks' hhunks'
      exact ⟨hlast, p', by rw [foldlM_cons_of_ok (f := readLine) hq, hrun], hp'⟩

theorem Layout.weight_of_run (hsolid : place.Solid hunks)
    (htracks : Tracks p place) (hrun : lines.foldlM readLine p = .ok p')
    : Tracks p' place'
      ∧ weight p.hunks + weight hunks' + (if (place.walk lines).isNone then 1 else 0)
          ≤ weight p'.hunks + weight hunks := by
  induction h generalizing p with
  | nil =>
    cases hrun
    refine ⟨htracks, ?_⟩
    simp [walk]
  | @cons place mid place' hunks hunks' line lines item hline hlines ih =>
    have ⟨q, hq, hrest⟩ := foldlM_cons_eq_ok hrun
    have hbegin : Tracks p.takeLine place :=
      ⟨htracks.mode, htracks.hunks⟩
    have ⟨item', hitem', hhunks, htracks'⟩ := hline.step hbegin hq
    have ⟨hend, hweight⟩ := ih (hline.solid hsolid) htracks' hrest
    refine ⟨hend, ?_⟩
    have hgrow : weight q.hunks = weight p.hunks + item'.weight := by
      rw [hhunks]
      exact hline.weight_apply htracks.hunks (.inr hitem')
    have hlayout : weight (item.apply hunks) = weight hunks + item.weight :=
      hline.weight_apply hsolid.holds (.inl rfl)
    have hle := hline.weight_le_of_streamed hitem'
    rw [walk, hline.next_eq]
    cases hdiffers : place.differs line with
    | true =>
      rw [hdiffers, if_pos rfl] at hle
      split at hweight <;> simp <;> omega
    | false =>
      simp only [hdiffers, Bool.false_eq_true, if_false] at hle ⊢
      omega

end

end Runs

end Codex.ApplyPatch
