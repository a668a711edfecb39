import AppSuite.Codex.ApplyPatch.Parser

/-!
This module contains the parser that is fed a patch piece by piece.
-/

namespace Codex.ApplyPatch

open ExceptFold Text List

inductive StreamingParserMode where
  | notStarted
  | startedPatch
  | addFile
  | deleteFile
  | updateFile (hunkLineNumber : Nat)
  | endedPatch
  deriving DecidableEq, Repr

structure StreamingPatchParser where
  lineBuffer : Str
  mode : StreamingParserMode
  hunks : List Hunk
  lineNumber : Nat
  deriving DecidableEq, Repr

def UpdateFileChunk.hasNoLines (chunk : UpdateFileChunk) : Bool :=
  chunk.oldLines.isEmpty && chunk.newLines.isEmpty

variable (chunks : List UpdateFileChunk)

def lastHasNoLines : Bool :=
  chunks.getLast?.any (·.hasNoLines)

def pushChange (change : ChangeLine) : List UpdateFileChunk :=
  match chunks.getLast? with
  | none => [UpdateFileChunk.push ⟨none, [], [], false⟩ change]
  | some chunk => chunks.dropLast ++ [chunk.push change]

def markEndOfFile : List UpdateFileChunk :=
  match chunks.getLast? with
  | none => chunks
  | some chunk => chunks.dropLast ++ [{ chunk with isEndOfFile := true }]

namespace StreamingPatchParser

def start : StreamingPatchParser := ⟨[], .notStarted, [], 0⟩

variable (p : StreamingPatchParser) (hunk : Hunk)

def setLast : StreamingPatchParser :=
  { p with hunks := p.hunks.dropLast ++ [hunk] }

variable (line : Str)

def ensureUpdateHunkIsNotEmpty : Except ParseError Unit :=
  match p.hunks.getLast? with
  | some (.updateFile path _ chunks) =>
    match chunks, p.mode with
    | [], .updateFile hunkLineNumber => throw (.emptyUpdate path hunkLineNumber)
    | chunks, _ =>
      if lastHasNoLines chunks then
        throw (if line = endPatchMarker then .noLines p.lineNumber else .unexpectedLine line p.lineNumber)
      else
        pure ()
  | _ => pure ()

def handleHunkHeadersAndEndPatch (trimmed : Str) : Except ParseError (Option StreamingPatchParser) :=
  if trimmed = endPatchMarker then do
    p.ensureUpdateHunkIsNotEmpty trimmed
    pure (some { p with mode := .endedPatch })
  else
    match addFileMarker.isPrefixOf? trimmed with
    | some path => do
      p.ensureUpdateHunkIsNotEmpty trimmed
      pure (some { p with hunks := p.hunks ++ [.addFile path []], mode := .addFile })
    | none =>
      match deleteFileMarker.isPrefixOf? trimmed with
      | some path => do
        p.ensureUpdateHunkIsNotEmpty trimmed
        pure (some { p with hunks := p.hunks ++ [.deleteFile path], mode := .deleteFile })
      | none =>
        match updateFileMarker.isPrefixOf? trimmed with
        | some path => do
          p.ensureUpdateHunkIsNotEmpty trimmed
          pure (some
            { p with
              hunks := p.hunks ++ [.updateFile path none []]
              mode := .updateFile p.lineNumber })
        | none => pure none

def processChunkLine : Except ParseError (List UpdateFileChunk) :=
  let updateLine := trimEnd line
  if (updateLine = emptyChangeContextMarker ∨ changeContextMarker <+: updateLine)
      ∧ lastHasNoLines chunks then
    throw (.unexpectedLine line p.lineNumber)
  else if updateLine = emptyChangeContextMarker then
    pure (chunks ++ [⟨none, [], [], false⟩])
  else
    match changeContextMarker.isPrefixOf? updateLine with
    | some context => pure (chunks ++ [⟨some context, [], [], false⟩])
    | none =>
      if updateLine = eofMarker then
        if lastHasNoLines chunks then
          throw (.noLines p.lineNumber)
        else
          pure (markEndOfFile chunks)
      else
        match changeLine line with
        | some change => pure (pushChange chunks change)
        | none =>
          throw (if chunks.getLast?.any (!·.hasNoLines) then .noContext line p.lineNumber
            else .unexpectedLine line p.lineNumber)

def processUpdateLine (path : Str) (movePath : Option Str) (chunks : List UpdateFileChunk) (line : Str)
    : Except ParseError Hunk :=
  match (if chunks.isEmpty && movePath.isNone then moveToMarker.isPrefixOf? (trimEnd line) else none) with
  | some moveToPath => pure (.updateFile path (some moveToPath) chunks)
  | none => do
    let chunks ← p.processChunkLine chunks line
    pure (.updateFile path movePath chunks)

def processLine : Except ParseError StreamingPatchParser :=
  match p.mode with
  | .notStarted =>
    if trim line = beginPatchMarker then
      pure { p with mode := .startedPatch }
    else
      throw .badFirstLine
  | .startedPatch | .deleteFile => do
    match ← p.handleHunkHeadersAndEndPatch (trim line) with
    | some p => pure p
    | none => throw (.notAHeader (trim line) p.lineNumber)
  | .addFile => do
    match ← p.handleHunkHeadersAndEndPatch (trim line) with
    | some p => pure p
    | none =>
      match ['+'].isPrefixOf? line, p.hunks.getLast? with
      | some lineToAdd, some (.addFile path contents) =>
        pure (p.setLast (.addFile path (contents ++ lineToAdd ++ ['\n'])))
      | _, _ => throw (.notAHeader (trim line) p.lineNumber)
  | .updateFile _ => do
    match ← p.handleHunkHeadersAndEndPatch (trimEnd line) with
    | some p => pure p
    | none =>
      match p.hunks.getLast? with
      | some (.updateFile path movePath chunks) => do
        let hunk ← p.processUpdateLine path movePath chunks line
        pure (p.setLast hunk)
      | _ => throw (.unexpectedLine line p.lineNumber)
  | .endedPatch => pure p

def takeLine : StreamingPatchParser :=
  { p with lineBuffer := [], lineNumber := p.lineNumber + 1 }

def readLine : Except ParseError StreamingPatchParser :=
  p.takeLine.processLine line

def pushChar (ch : Char) : Except ParseError StreamingPatchParser :=
  if ch = '\n' then
    p.readLine (chopCr p.lineBuffer)
  else
    pure { p with lineBuffer := p.lineBuffer ++ [ch] }

def pushDelta (delta : Str) : Except ParseError (List Hunk × StreamingPatchParser) := do
  let p ← delta.foldlM pushChar p
  pure (p.hunks, p)

def finishLine : Except ParseError StreamingPatchParser :=
  if p.lineBuffer = [] then
    pure p
  else if trim p.lineBuffer = endPatchMarker then do
    p.takeLine.ensureUpdateHunkIsNotEmpty (trim p.lineBuffer)
    pure { p.takeLine with mode := .endedPatch }
  else
    p.readLine p.lineBuffer

def finish : Except ParseError (List Hunk × StreamingPatchParser) := do
  let p ← p.finishLine
  if p.mode ≠ .endedPatch then
    throw .badLastLine
  else
    pure (p.hunks, p)

def enterHunk : StreamingPatchParser :=
  { p with
    hunks := p.hunks ++ [hunk]
    mode := match hunk with
      | .addFile .. => .addFile
      | .deleteFile .. => .deleteFile
      | .updateFile .. => .updateFile p.lineNumber }

theorem handleHunkHeadersAndEndPatch_eq (text : Str)
    : p.handleHunkHeadersAndEndPatch text
        = if text = endPatchMarker then do
            p.ensureUpdateHunkIsNotEmpty text
            pure (some { p with mode := .endedPatch })
          else
            match openHunk text with
            | some hunk => do
              p.ensureUpdateHunkIsNotEmpty text
              pure (some (p.enterHunk hunk))
            | none => pure none := by
  unfold handleHunkHeadersAndEndPatch openHunk
  split
  . rfl
  . cases addFileMarker.isPrefixOf? text with
    | some path => rfl
    | none =>
      cases deleteFileMarker.isPrefixOf? text with
      | some path => rfl
      | none => cases updateFileMarker.isPrefixOf? text <;> rfl

variable {p p' : StreamingPatchParser} {line text : Str}

theorem handleHunkHeadersAndEndPatch_eq_none (hend : text ≠ endPatchMarker) (hopen : openHunk text = none)
    : p.handleHunkHeadersAndEndPatch text = .ok none := by
  rw [handleHunkHeadersAndEndPatch_eq, if_neg hend, hopen]
  rfl

theorem handleHunkHeadersAndEndPatch_eq_some_iff
    : p.handleHunkHeadersAndEndPatch text = .ok (some p')
        ↔ p.ensureUpdateHunkIsNotEmpty text = .ok ()
            ∧ (text = endPatchMarker ∧ p' = { p with mode := .endedPatch }
              ∨ ∃ hunk, openHunk text = some hunk ∧ p' = p.enterHunk hunk) := by
  rw [handleHunkHeadersAndEndPatch_eq]
  split
  . next hend =>
    have hopen : openHunk text = none := by
      rw [hend]
      decide
    rw [unit_bind_eq_ok, pure_eq_ok, hopen]
    simp [hend, eq_comm]
  . next hend =>
    cases hopen : openHunk text with
    | none => simp [hend, pure_eq_ok]
    | some hunk =>
      rw [unit_bind_eq_ok, pure_eq_ok]
      simp [hend, eq_comm]

theorem handled_eq_ok {x : Except ParseError (Option StreamingPatchParser)}
    {rest : Except ParseError StreamingPatchParser}
    : (do match ← x with
        | some p => pure p
        | none => rest) = .ok p'
      ↔ x = .ok (some p') ∨ x = .ok none ∧ rest = .ok p' := by
  cases x with
  | error e => simp [bind, Except.bind]
  | ok handled => cases handled <;> simp [bind, Except.bind, pure, Except.pure]

theorem processLine_eq_ok_of_trimmed (hmode : p.mode = .startedPatch ∨ p.mode = .deleteFile)
    : p.processLine line = .ok p' ↔ p.handleHunkHeadersAndEndPatch (trim line) = .ok (some p') := by
  unfold processLine
  cases hmode with
  | inl hmode | inr hmode =>
    rw [hmode]
    exact handled_eq_ok.trans (by simp [throw_eq_ok])

theorem processLine_eq_ok_of_addFile (hmode : p.mode = .addFile)
    : p.processLine line = .ok p'
      ↔ p.handleHunkHeadersAndEndPatch (trim line) = .ok (some p')
        ∨ p.handleHunkHeadersAndEndPatch (trim line) = .ok none ∧ ∃ text path contents,
            line = '+' :: text ∧ p.hunks.getLast? = some (.addFile path contents)
              ∧ p' = p.setLast (.addFile path (contents ++ text ++ ['\n'])) := by
  unfold processLine
  rw [hmode]
  refine handled_eq_ok.trans (or_congr_right (and_congr_right fun _ => ?_))
  constructor
  . intro h
    split at h
    . next text path contents hline hlast =>
      rw [isPrefixOf?_eq_some_iff_append_eq] at hline
      rw [pure_eq_ok] at h
      exact ⟨text, path, contents, hline.symm, hlast, h.symm⟩
    . simp [throw_eq_ok] at h
  . rintro ⟨text, path, contents, hline, hlast, hset⟩
    rw [hline, hlast, hset]
    rfl

theorem processLine_eq_ok_of_updateFile (hmode : p.mode = .updateFile n)
    : p.processLine line = .ok p'
      ↔ p.handleHunkHeadersAndEndPatch (trimEnd line) = .ok (some p')
        ∨ p.handleHunkHeadersAndEndPatch (trimEnd line) = .ok none ∧ ∃ path movePath chunks hunk,
            p.hunks.getLast? = some (.updateFile path movePath chunks)
              ∧ p.processUpdateLine path movePath chunks line = .ok hunk ∧ p' = p.setLast hunk := by
  unfold processLine
  rw [hmode]
  refine handled_eq_ok.trans (or_congr_right (and_congr_right fun _ => ?_))
  constructor
  . intro h
    split at h
    . next path movePath chunks hlast =>
      rw [bind_eq_ok] at h
      obtain ⟨hunk, hprocess, hset⟩ := h
      rw [pure_eq_ok] at hset
      exact ⟨path, movePath, chunks, hunk, hlast, hprocess, hset.symm⟩
    . simp [throw_eq_ok] at h
  . rintro ⟨path, movePath, chunks, hunk, hlast, hprocess, hset⟩
    rw [hlast]
    dsimp only
    rw [hprocess, hset]
    rfl

theorem lineBuffer_of_processLine (h : p.processLine line = .ok p') : p'.lineBuffer = p.lineBuffer := by
  have hhandle {text : Str} (h : p.handleHunkHeadersAndEndPatch text = .ok (some p'))
      : p'.lineBuffer = p.lineBuffer := by
    have ⟨_, h⟩ := handleHunkHeadersAndEndPatch_eq_some_iff.mp h
    rcases h with ⟨_, h⟩ | ⟨hunk, _, h⟩ <;> rw [h]
    rfl
  cases hmode : p.mode with
  | notStarted =>
    unfold processLine at h
    rw [hmode] at h
    dsimp only at h
    split at h
    . rw [pure_eq_ok] at h
      rw [← h]
    . simp [throw_eq_ok] at h
  | startedPatch => exact hhandle ((processLine_eq_ok_of_trimmed (.inl hmode)).mp h)
  | deleteFile => exact hhandle ((processLine_eq_ok_of_trimmed (.inr hmode)).mp h)
  | addFile =>
    rcases (processLine_eq_ok_of_addFile hmode).mp h with h | ⟨_, _, _, _, _, _, h⟩
    . exact hhandle h
    . rw [h]
      rfl
  | updateFile n =>
    rcases (processLine_eq_ok_of_updateFile hmode).mp h with h | ⟨_, _, _, _, _, _, _, h⟩
    . exact hhandle h
    . rw [h]
      rfl
  | endedPatch =>
    unfold processLine at h
    rw [hmode] at h
    rw [pure_eq_ok] at h
    rw [← h]

theorem foldlM_pushChar (s : Str) (hbuffer : '\n' ∉ p.lineBuffer)
    : s.foldlM pushChar p = (do
        let q ← ((terminated (p.lineBuffer ++ s)).map chopCr).foldlM readLine
          { p with lineBuffer := [] }
        pure { q with lineBuffer := unterminated (p.lineBuffer ++ s) }) := by
  induction s generalizing p with
  | nil =>
    rw [append_nil, terminated_of_not_mem hbuffer, unterminated_of_not_mem hbuffer]
    rfl
  | cons c s ih =>
    rw [foldlM_cons]
    by_cases hc : c = '\n'
    . rw [hc, pushChar, if_pos rfl, terminated_append_newline, unterminated_append_newline,
        terminated_of_not_mem hbuffer, unterminated_of_not_mem hbuffer, nil_append,
        map_cons, foldlM_cons]
      cases hread : p.readLine (chopCr p.lineBuffer) with
      | error e =>
        have hread' : readLine { p with lineBuffer := [] } (chopCr p.lineBuffer) = .error e := hread
        rw [hread']
        rfl
      | ok q =>
        have hread' : readLine { p with lineBuffer := [] } (chopCr p.lineBuffer) = .ok q := hread
        have hq : q.lineBuffer = [] := lineBuffer_of_processLine hread
        have hself : { q with lineBuffer := [] } = q := by rw [← hq]
        have hrest := ih (p := q) (by simp [hq])
        rw [hself, hq, nil_append] at hrest
        rw [hread']
        exact hrest
    . have hp : p.pushChar c = .ok { p with lineBuffer := p.lineBuffer ++ [c] } := if_neg hc
      have hrest := ih (p := { p with lineBuffer := p.lineBuffer ++ [c] }) (by simp [hbuffer, hc, eq_comm])
      rw [append_assoc, singleton_append] at hrest
      rw [hp]
      exact hrest

end StreamingPatchParser

def streamPatch (deltas : List Str) : Except ParseError (List Hunk) := do
  let p ← deltas.foldlM (fun p delta => do return (← p.pushDelta delta).2) StreamingPatchParser.start
  return (← p.finish).1

theorem streamPatch_eq (deltas : List Str)
    : streamPatch deltas = (do
        let q ← ((terminated deltas.flatten).map chopCr).foldlM StreamingPatchParser.readLine
          StreamingPatchParser.start
        return (← StreamingPatchParser.finish
          { q with lineBuffer := unterminated deltas.flatten }).1) := by
  have hdeltas (p : StreamingPatchParser)
      : deltas.foldlM (fun p delta => do return (← p.pushDelta delta).2) p
          = deltas.flatten.foldlM StreamingPatchParser.pushChar p := by
    induction deltas generalizing p with
    | nil => rfl
    | cons delta deltas ih =>
      rw [foldlM_cons, flatten_cons, foldlM_append, StreamingPatchParser.pushDelta]
      cases delta.foldlM StreamingPatchParser.pushChar p with
      | error e => rfl
      | ok q => exact ih q
  unfold streamPatch
  rw [hdeltas, StreamingPatchParser.foldlM_pushChar _ (by simp [StreamingPatchParser.start])]
  simp only [StreamingPatchParser.start, nil_append, bind_assoc, pure_bind]

end Codex.ApplyPatch
