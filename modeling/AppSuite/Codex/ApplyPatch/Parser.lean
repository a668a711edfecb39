import AppSuite.Data.ExceptFold
import AppSuite.Text.Lines

/-!
This module contains the parser that turns the text of a whole patch into hunks.
-/

namespace Codex.ApplyPatch

open ExceptFold

abbrev Str := List Char

def trim (s : Str) : Str := Text.trim Text.isWhiteSpace s

def trimEnd (s : Str) : Str := Text.trimEnd Text.isWhiteSpace s

theorem trim_cons_ne_nil (hc : Text.isWhiteSpace c = false)
    : trim (c :: text) ≠ [] := by
  unfold trim
  intro h
  rw [Text.trim_eq_nil_iff] at h
  have := h c (by simp)
  simp [hc] at this

def beginPatchMarker : Str := "*** Begin Patch".toList
def endPatchMarker : Str := "*** End Patch".toList
def addFileMarker : Str := "*** Add File: ".toList
def deleteFileMarker : Str := "*** Delete File: ".toList
def updateFileMarker : Str := "*** Update File: ".toList
def moveToMarker : Str := "*** Move to: ".toList
def eofMarker : Str := "*** End of File".toList
def changeContextMarker : Str := "@@ ".toList
def emptyChangeContextMarker : Str := "@@".toList

inductive ParseError where
  | invalidPatchError (message : String)
  | invalidHunkError (message : String) (lineNumber : Nat)
  deriving DecidableEq, Repr

structure UpdateFileChunk where
  changeContext : Option Str
  oldLines : List Str
  newLines : List Str
  isEndOfFile : Bool
  deriving DecidableEq, Repr

inductive Hunk where
  | addFile (path contents : Str)
  | deleteFile (path : Str)
  | updateFile (path : Str) (movePath : Option Str) (chunks : List UpdateFileChunk)
  deriving DecidableEq, Repr

structure ApplyPatchArgs where
  hunks : List Hunk
  patch : Str
  workdir : Option Str
  deriving DecidableEq, Repr

namespace ParseError

def badFirstLine : ParseError :=
  .invalidPatchError "The first line of the patch must be '*** Begin Patch'"

def badLastLine : ParseError :=
  .invalidPatchError "The last line of the patch must be '*** End Patch'"

variable (line : Str) (lineNumber : Nat)

def notAHeader : ParseError :=
  .invalidHunkError
    ("'" ++ String.ofList line ++ "' is not a valid hunk header. Valid hunk headers: "
      ++ "'*** Add File: \x7bpath\x7d', '*** Delete File: \x7bpath\x7d', '*** Update File: \x7bpath\x7d'")
    lineNumber

def emptyUpdate (path : Str) (lineNumber : Nat) : ParseError :=
  .invalidHunkError ("Update file hunk for path '" ++ String.ofList path ++ "' is empty") lineNumber

def noLines : ParseError :=
  .invalidHunkError "Update hunk does not contain any lines" lineNumber

def noContext : ParseError :=
  .invalidHunkError
    ("Expected update hunk to start with a @@ context marker, got: '" ++ String.ofList line ++ "'")
    lineNumber

def unexpectedLine : ParseError :=
  .invalidHunkError
    ("Unexpected line found in update hunk: '" ++ String.ofList line ++ "'. Every line should start "
      ++ "with ' ' (context line), '+' (added line), or '-' (removed line)")
    lineNumber

end ParseError

inductive ChangeLine where
  | context (text : Str)
  | added (text : Str)
  | removed (text : Str)
  deriving DecidableEq, Repr

def changeLine : Str → Option ChangeLine
  | [] => some (.context [])
  | c :: text =>
    if c = ' ' then
      some (.context text)
    else if c = '+' then
      some (.added text)
    else if c = '-' then
      some (.removed text)
    else
      none

def UpdateFileChunk.push (chunk : UpdateFileChunk) : ChangeLine → UpdateFileChunk
  | .context text =>
    { chunk with oldLines := chunk.oldLines ++ [text], newLines := chunk.newLines ++ [text] }
  | .added text => { chunk with newLines := chunk.newLines ++ [text] }
  | .removed text => { chunk with oldLines := chunk.oldLines ++ [text] }

def parseChunkLines (lineNumber : Nat) (chunk : UpdateFileChunk) (parsedLines : Nat)
    : List Str → Except ParseError (UpdateFileChunk × Nat)
  | [] => pure (chunk, parsedLines)
  | line :: lines =>
    if line = eofMarker then
      if parsedLines = 0 then
        throw (.noLines (lineNumber + 1))
      else
        pure ({ chunk with isEndOfFile := true }, parsedLines + 1)
    else
      match changeLine line with
      | some change => parseChunkLines lineNumber (chunk.push change) (parsedLines + 1) lines
      | none =>
        if parsedLines = 0 then
          throw (.unexpectedLine line (lineNumber + 1))
        else
          pure (chunk, parsedLines)

def parseChangeContext (line : Str) (lineNumber : Nat) (allowMissingContext : Bool)
    : Except ParseError (Option Str × Nat) :=
  if line = emptyChangeContextMarker then
    pure (none, 1)
  else
    match changeContextMarker.isPrefixOf? line with
    | some context => pure (some context, 1)
    | none =>
      if !allowMissingContext then
        throw (.noContext line lineNumber)
      else
        pure (none, 0)

def contextLine : Option Str → Str
  | none => emptyChangeContextMarker
  | some context => changeContextMarker ++ context

def parseUpdateFileChunk (lines : List Str) (lineNumber : Nat) (allowMissingContext : Bool)
    : Except ParseError (UpdateFileChunk × Nat) :=
  match lines with
  | [] => throw (.noLines lineNumber)
  | first :: _ => do
    let (changeContext, startIndex) ← parseChangeContext first lineNumber allowMissingContext
    if startIndex ≥ lines.length then
      throw (.noLines (lineNumber + 1))
    else
      let (chunk, parsedLines) ←
        parseChunkLines lineNumber ⟨changeContext, [], [], false⟩ 0 (lines.drop startIndex)
      pure (chunk, parsedLines + startIndex)

variable {line : Str} {parsed' : Nat} {chunk' : UpdateFileChunk} {patchLines hunkLines : List Str}

theorem ne_eofMarker_of_changeLine (h : changeLine line = some change)
    : line ≠ eofMarker := by
  intro heq
  rw [heq] at h
  cases h

def Stops (rest : List Str) : Prop :=
  ∀ line, rest.head? = some line → changeLine line = none ∧ line ≠ eofMarker

variable {n parsed : Nat} {chunk : UpdateFileChunk} {lines : List Str}

theorem le_parsed_of_parseChunkLines (h : parseChunkLines n chunk parsed lines = .ok (chunk', parsed'))
    : parsed ≤ parsed' := by
  induction lines generalizing chunk parsed with
  | nil =>
    rw [parseChunkLines, pure_eq_ok, Prod.mk.injEq] at h
    omega
  | cons line lines ih =>
    rw [parseChunkLines] at h
    split at h
    . rw [guard_eq_ok, pure_eq_ok, Prod.mk.injEq] at h
      omega
    . split at h
      . have := ih h
        omega
      . rw [guard_eq_ok, pure_eq_ok, Prod.mk.injEq] at h
        omega

theorem parsed_pos_of_parseChunkLines (hlines : lines ≠ [])
    (h : parseChunkLines n chunk 0 lines = .ok (chunk', parsed))
    : 0 < parsed := by
  cases lines with
  | nil => contradiction
  | cons line lines =>
    rw [parseChunkLines] at h
    split at h
    . simp at h
    . split at h
      . exact le_parsed_of_parseChunkLines h
      . simp at h

theorem parsed_pos_of_parseUpdateFileChunk
    (h : parseUpdateFileChunk lines n allow = .ok (chunk, parsed))
    : 0 < parsed := by
  cases lines with
  | nil => simp [parseUpdateFileChunk, throw_eq_ok] at h
  | cons first lines =>
    simp only [parseUpdateFileChunk, bind_eq_ok, guard_eq_ok, pure_eq_ok, Prod.mk.injEq] at h
    have ⟨(_, startIndex), _, hstart, (_, parsedLines), hparse, _, hparsed⟩ := h
    have : 0 < parsedLines := by
      apply parsed_pos_of_parseChunkLines _ hparse
      simpa using hstart
    omega

def parseChunks (lineNumber : Nat) (chunks : List UpdateFileChunk) (parsedLines : Nat)
    : List Str → Except ParseError (List UpdateFileChunk × Nat)
  | [] => pure (chunks, parsedLines)
  | line :: rest =>
    if (trim line).isEmpty then
      parseChunks lineNumber chunks (parsedLines + 1) rest
    else if line.head? = some '*' then
      pure (chunks, parsedLines)
    else
      match _h : parseUpdateFileChunk (line :: rest) (lineNumber + parsedLines) chunks.isEmpty with
      | .error e => throw e
      | .ok (chunk, chunkLines) =>
        parseChunks lineNumber (chunks ++ [chunk]) (parsedLines + chunkLines)
          ((line :: rest).drop chunkLines)
termination_by lines => lines.length
decreasing_by
  . simp
  . have := parsed_pos_of_parseUpdateFileChunk _h
    simp
    omega

def parseAddLines (contents : Str) (parsedLines : Nat) : List Str → Str × Nat
  | [] => (contents, parsedLines)
  | line :: lines =>
    match ['+'].isPrefixOf? line with
    | some lineToAdd => parseAddLines (contents ++ lineToAdd ++ ['\n']) (parsedLines + 1) lines
    | none => (contents, parsedLines)

def parseOneHunk (line : Str) (lines : List Str) (lineNumber : Nat) : Except ParseError (Hunk × Nat) :=
  let firstLine := trim line
  match addFileMarker.isPrefixOf? firstLine with
  | some path =>
    let (contents, parsedLines) := parseAddLines [] 1 lines
    pure (.addFile path contents, parsedLines)
  | none =>
    match deleteFileMarker.isPrefixOf? firstLine with
    | some path => pure (.deleteFile path, 1)
    | none =>
      match updateFileMarker.isPrefixOf? firstLine with
      | some path => do
        let movePath := lines.head?.bind fun line => moveToMarker.isPrefixOf? line
        let moveLines := if movePath.isSome then 1 else 0
        let (chunks, parsedLines) ← parseChunks lineNumber [] (1 + moveLines) (lines.drop moveLines)
        if chunks.isEmpty then
          throw (.emptyUpdate path lineNumber)
        else
          pure (.updateFile path movePath chunks, parsedLines)
      | none => throw (.notAHeader firstLine lineNumber)

theorem le_parsed_of_parseChunks
    (h : parseChunks n chunks parsed lines = .ok (chunks', parsed'))
    : parsed ≤ parsed' := by
  fun_induction parseChunks n chunks parsed lines with
  | case1 =>
    rw [pure_eq_ok, Prod.mk.injEq] at h
    omega
  | case2 _ _ _ _ _ ih =>
    have := ih h
    omega
  | case3 =>
    rw [pure_eq_ok, Prod.mk.injEq] at h
    omega
  | case4 => simp [throw_eq_ok] at h
  | case5 _ _ _ _ _ _ _ _ _ ih =>
    have := ih h
    omega

theorem le_parsed_parseAddLines (contents : Str) (parsed : Nat) (lines : List Str)
    : parsed ≤ (parseAddLines contents parsed lines).2 := by
  induction lines generalizing contents parsed with
  | nil => exact Nat.le_refl _
  | cons line lines ih =>
    rw [parseAddLines]
    split
    . next lineToAdd _ =>
      have := ih (contents ++ lineToAdd ++ ['\n']) (parsed + 1)
      omega
    . exact Nat.le_refl _

def openHunk (header : Str) : Option Hunk :=
  match addFileMarker.isPrefixOf? header with
  | some path => some (.addFile path [])
  | none =>
    match deleteFileMarker.isPrefixOf? header with
    | some path => some (.deleteFile path)
    | none =>
      match updateFileMarker.isPrefixOf? header with
      | some path => some (.updateFile path none [])
      | none => none

theorem parsed_pos_of_parseOneHunk (h : parseOneHunk line lines n = .ok (hunk, parsed))
    : 0 < parsed := by
  unfold parseOneHunk at h
  dsimp only at h
  split at h
  . rw [pure_eq_ok, Prod.mk.injEq] at h
    have := le_parsed_parseAddLines [] 1 lines
    omega
  . split at h
    . rw [pure_eq_ok, Prod.mk.injEq] at h
      omega
    . split at h
      . simp only [bind_eq_ok, guard_eq_ok, pure_eq_ok, Prod.mk.injEq] at h
        have ⟨_, hparse, _, _, hparsed⟩ := h
        have := le_parsed_of_parseChunks hparse
        omega
      . simp [throw_eq_ok] at h

def parseHunks (hunks : List Hunk) (lineNumber : Nat) : List Str → Except ParseError (List Hunk)
  | [] => pure hunks
  | line :: lines =>
    match _h : parseOneHunk line lines lineNumber with
    | .error e => throw e
    | .ok (hunk, hunkLines) =>
      parseHunks (hunks ++ [hunk]) (lineNumber + hunkLines) ((line :: lines).drop hunkLines)
termination_by lines => lines.length
decreasing_by
  have := parsed_pos_of_parseOneHunk _h
  simp
  omega

def checkStartAndEndLinesStrict (firstLine lastLine : Option Str) : Except ParseError Unit :=
  match firstLine.map trim, lastLine.map trim with
  | some first, some last =>
    if first = beginPatchMarker ∧ last = endPatchMarker then
      pure ()
    else if first ≠ beginPatchMarker then
      throw .badFirstLine
    else
      throw .badLastLine
  | some first, none => throw (if first ≠ beginPatchMarker then .badFirstLine else .badLastLine)
  | none, _ => throw .badLastLine

theorem checkStartAndEndLinesStrict_eq_ok_iff
    : checkStartAndEndLinesStrict firstLine lastLine = .ok u
      ↔ ∃ first last, firstLine = some first ∧ lastLine = some last ∧ trim first = beginPatchMarker
          ∧ trim last = endPatchMarker := by
  unfold checkStartAndEndLinesStrict
  cases firstLine with
  | none => simp [throw_eq_ok]
  | some first =>
    cases lastLine with
    | none => simp [throw_eq_ok]
    | some last =>
      dsimp only [Option.map_some]
      split
      . next h => simpa [pure_eq_ok] using h
      . next h =>
        simp [guard_eq_ok, throw_eq_ok]
        simpa using h

def checkPatchBoundariesStrict (lines : List Str) : Except ParseError (List Str × List Str) := do
  checkStartAndEndLinesStrict lines.head? lines.getLast?
  pure (lines, lines.tail.dropLast)

theorem checkPatchBoundariesStrict_eq_ok_iff
    : checkPatchBoundariesStrict lines = .ok (patchLines, hunkLines)
      ↔ patchLines = lines ∧ ∃ first last, lines = first :: (hunkLines ++ [last])
          ∧ trim first = beginPatchMarker ∧ trim last = endPatchMarker := by
  unfold checkPatchBoundariesStrict
  simp only [bind_eq_ok, pure_eq_ok, checkStartAndEndLinesStrict_eq_ok_iff, Prod.mk.injEq]
  constructor
  . rintro ⟨_, ⟨first, last, hfirst, hlast, hbegin, hend⟩, hlines, hhunk⟩
    refine ⟨hlines.symm, first, last, ?_, hbegin, hend⟩
    have ⟨tail, htail⟩ := List.head?_eq_some_iff.mp hfirst
    rw [htail] at hlast hhunk ⊢
    rw [← hhunk]
    cases tail using List.reverseRecOn with
    | nil =>
      have hsame : first = last := Option.some.inj hlast
      rw [← hsame, hbegin] at hend
      contradiction
    | append_singleton init x =>
      rw [← List.cons_append, List.getLast?_concat, Option.some.injEq] at hlast
      simp [hlast]
  . rintro ⟨hlines, first, last, heq, hbegin, hend⟩
    refine ⟨(), ⟨first, last, ?_, ?_, hbegin, hend⟩, hlines.symm, ?_⟩ <;> rw [heq]
    . rfl
    . rw [← List.cons_append, List.getLast?_concat]
    . simp

def heredocMarkers : List Str := ["<<EOF".toList, "<<'EOF'".toList, "<<\"EOF\"".toList]

def checkPatchBoundariesLenient (originalLines : List Str) : Except ParseError (List Str × List Str) :=
  match checkPatchBoundariesStrict originalLines with
  | .ok lines => pure lines
  | .error originalParseError =>
    match originalLines.head?, originalLines.getLast? with
    | some first, some last =>
      if first ∈ heredocMarkers ∧ "EOF".toList <:+ last ∧ 4 ≤ originalLines.length then
        checkPatchBoundariesStrict originalLines.tail.dropLast
      else
        throw originalParseError
    | _, _ => throw originalParseError

inductive ParseMode where
  | strict
  | lenient
  deriving DecidableEq, Repr

def checkPatchBoundaries : ParseMode → List Str → Except ParseError (List Str × List Str)
  | .strict, lines => checkPatchBoundariesStrict lines
  | .lenient, lines => checkPatchBoundariesLenient lines

def parsePatchText (patch : Str) (mode : ParseMode) : Except ParseError ApplyPatchArgs := do
  let (patchLines, hunkLines) ← checkPatchBoundaries mode (Text.lines (trim patch))
  let hunks ← parseHunks [] 2 hunkLines
  pure ⟨hunks, ['\n'].intercalate patchLines, none⟩

theorem parsePatchText_of_strict
    (h : checkPatchBoundariesStrict (Text.lines (trim patch)) = .ok (patchLines, hunkLines))
    : parsePatchText patch mode
      = (parseHunks [] 2 hunkLines).map fun hunks => ⟨hunks, ['\n'].intercalate patchLines, none⟩ := by
  have hmode : checkPatchBoundaries mode (Text.lines (trim patch)) = .ok (patchLines, hunkLines) := by
    cases mode with
    | strict => exact h
    | lenient =>
      rw [checkPatchBoundaries, checkPatchBoundariesLenient, h]
      rfl
  unfold parsePatchText
  rw [hmode]
  change (parseHunks [] 2 hunkLines >>= _) = _
  cases parseHunks [] 2 hunkLines <;> rfl

def parseInStrictMode : Bool := false

def parsePatch (patch : Str) : Except ParseError ApplyPatchArgs :=
  parsePatchText patch (if parseInStrictMode then .strict else .lenient)

end Codex.ApplyPatch
