import AppSuite.Codex.ApplyPatch.Parser

/-!
This module contains how the chunks of an update are located in a file and applied to it.
-/

namespace Codex.ApplyPatch

def normaliseChar (c : Char) : Char :=
  match c with
  | '\u2010' | '\u2011' | '\u2012' | '\u2013' | '\u2014' | '\u2015' | '\u2212' => '-'
  | '\u2018' | '\u2019' | '\u201a' | '\u201b' => '\x27'
  | '\u201c' | '\u201d' | '\u201e' | '\u201f' => '\x22'
  | '\u00a0' | '\u2002' | '\u2003' | '\u2004' | '\u2005' | '\u2006' | '\u2007' | '\u2008'
  | '\u2009' | '\u200a' | '\u202f' | '\u205f' | '\u3000' => ' '
  | other => other

def normalise (s : Str) : Str := (trim s).map normaliseChar

section

variable (canon : Str → Str) (lines pattern : List Str)

-- Here and below the outer `none` is the panic of an index that is out of bounds.
def matchesSlice (i : Nat) : Option Bool :=
  if i + pattern.length ≤ lines.length then some ((lines.drop i).take pattern.length == pattern) else none

def matchesLines (i : Nat) : List Str → Option Bool
  | [] => some true
  | line :: pattern =>
    match lines[i]? with
    | none => none
    | some read => if canon read ≠ canon line then some false else matchesLines (i + 1) pattern

def seekPass (stands : Nat → Option Bool) : List Nat → Option (Option Nat)
  | [] => some none
  | i :: rest =>
    match stands i with
    | none => none
    | some true => some (some i)
    | some false => seekPass stands rest

def thenSeek (found next : Option (Option Nat)) : Option (Option Nat) :=
  match found with
  | some none => next
  | found => found

def seekSequence? (start : Nat) (eof : Bool) : Option (Option Nat) :=
  if pattern = [] then
    some (some start)
  else if pattern.length > lines.length then
    some none
  else
    let searchStart :=
      if eof && lines.length ≥ pattern.length then lines.length - pattern.length else start
    let range := List.range' searchStart (lines.length - pattern.length + 1 - searchStart)
    thenSeek (seekPass (matchesSlice lines pattern) range)
      (thenSeek (seekPass (matchesLines trimEnd lines · pattern) range)
        (thenSeek (seekPass (matchesLines trim lines · pattern) range)
          (seekPass (matchesLines normalise lines · pattern) range)))

-- Whether `pattern` stands at line `i`, with every line brought into the form `canon` first.
def matchesAt (i : Nat) : Bool :=
  ((lines.drop i).take pattern.length).map canon == pattern.map canon

def seekFrom (searchStart : Nat) : Option Nat :=
  (List.range' searchStart (lines.length - pattern.length + 1 - searchStart)).find?
    (matchesAt canon lines pattern)

variable {lines pattern}

theorem matchesSlice_eq (h : i + pattern.length ≤ lines.length)
    : matchesSlice lines pattern i = some (matchesAt id lines pattern i) := by
  rw [matchesSlice, if_pos h, matchesAt, List.map_id, List.map_id]

theorem matchesLines_eq (h : i + pattern.length ≤ lines.length)
    : matchesLines canon lines i pattern = some (matchesAt canon lines pattern i) := by
  induction pattern generalizing i with
  | nil => simp [matchesLines, matchesAt]
  | cons line pattern ih =>
    rw [List.length_cons] at h
    have hi : i < lines.length := by omega
    rw [matchesLines, List.getElem?_eq_getElem hi, ih (by omega)]
    simp only [matchesAt, List.drop_eq_getElem_cons hi, List.length_cons, List.take_succ_cons, List.map_cons]
    by_cases heq : canon lines[i] = canon line <;> simp [heq]

theorem seekPass_eq (stands : Nat → Option Bool) (searchStart : Nat)
    (h : ∀ i, i + pattern.length ≤ lines.length → stands i = some (matchesAt canon lines pattern i))
    (hfits : pattern.length ≤ lines.length)
    : seekPass stands (List.range' searchStart (lines.length - pattern.length + 1 - searchStart))
      = some (seekFrom canon lines pattern searchStart) := by
  have hrange : ∀ i ∈ List.range' searchStart (lines.length - pattern.length + 1 - searchStart),
      i + pattern.length ≤ lines.length := by
    intro i hi
    rw [List.mem_range'_1] at hi
    omega
  unfold seekFrom
  generalize List.range' searchStart (lines.length - pattern.length + 1 - searchStart) = range at hrange ⊢
  induction range with
  | nil => rfl
  | cons i rest ih =>
    rw [List.forall_mem_cons] at hrange
    rw [seekPass, h i hrange.1, List.find?_cons, ih hrange.2]
    cases matchesAt canon lines pattern i <;> rfl

theorem thenSeek_some (found next : Option Nat) : thenSeek (some found) (some next) = some (found <|> next) := by
  cases found <;> rfl

variable (lines pattern)

theorem seekSequence?_eq (start : Nat) (eof : Bool)
    : seekSequence? lines pattern start eof = some (
      if pattern = [] then some start
      else if pattern.length > lines.length then none
      else
        let searchStart := if eof then lines.length - pattern.length else start
        seekFrom id lines pattern searchStart <|> seekFrom trimEnd lines pattern searchStart
          <|> seekFrom trim lines pattern searchStart <|> seekFrom normalise lines pattern searchStart) := by
  unfold seekSequence?
  split
  . rfl
  split
  . rfl
  next hfits =>
    have hle := Nat.le_of_not_lt hfits
    rw [decide_eq_true hle, Bool.and_true]
    simp only [seekPass_eq id _ _ (fun i => matchesSlice_eq) hle,
      seekPass_eq trimEnd _ _ (fun i => matchesLines_eq trimEnd) hle,
      seekPass_eq trim _ _ (fun i => matchesLines_eq trim) hle,
      seekPass_eq normalise _ _ (fun i => matchesLines_eq normalise) hle, thenSeek_some]

theorem isSome_seekSequence? (start : Nat) (eof : Bool)
    : (seekSequence? lines pattern start eof).isSome = true := by
  rw [seekSequence?_eq]
  rfl

def seekSequence (start : Nat) (eof : Bool) : Option Nat :=
  (seekSequence? lines pattern start eof).get (isSome_seekSequence? lines pattern start eof)

structure Replacement where
  startIndex : Nat
  oldLen : Nat
  newLines : List Str
  deriving DecidableEq, Repr

inductive ReplacementError where
  | contextNotFound (context path : Str)
  | linesNotFound (path : Str) (oldLines : List Str)
  deriving DecidableEq, Repr

def ReplacementError.message : ReplacementError → Str
  | contextNotFound context path =>
    "Failed to find context '".toList ++ context ++ "' in ".toList ++ path
  | linesNotFound path oldLines =>
    "Failed to find expected lines in ".toList ++ path ++ ":\n".toList
      ++ List.intercalate ['\n'] oldLines

def endsEmpty (lines : List Str) : Bool := lines.getLast? == some []

def dropEmptyEnd (lines : List Str) : List Str := if endsEmpty lines then lines.dropLast else lines

variable (lines : List Str) (path : Str) (context : Option Str) (lineIndex : Nat)

def seekContext : Except ReplacementError Nat :=
  match context with
  | none => pure lineIndex
  | some context =>
    match seekSequence lines [context] lineIndex false with
    | some i => pure (i + 1)
    | none => throw (.contextNotFound context path)

def insertionIndex : Nat :=
  if endsEmpty lines then lines.length - 1 else lines.length

-- Where the old lines of a chunk stand, with the lines that are replaced and their replacement. The
-- last old line may be the empty text after the final newline, which is not a line of the file.
def locate (chunk : UpdateFileChunk) : Option Replacement :=
  match seekSequence lines chunk.oldLines lineIndex chunk.isEndOfFile with
  | some i => some ⟨i, chunk.oldLines.length, chunk.newLines⟩
  | none =>
    if endsEmpty chunk.oldLines then
      match seekSequence lines chunk.oldLines.dropLast lineIndex chunk.isEndOfFile with
      | some i => some ⟨i, chunk.oldLines.dropLast.length, dropEmptyEnd chunk.newLines⟩
      | none => none
    else
      none

def computeReplacement (chunk : UpdateFileChunk) : Except ReplacementError (Replacement × Nat) :=
  match seekContext lines path chunk.changeContext lineIndex with
  | .error e => throw e
  | .ok lineIndex =>
    if chunk.oldLines = [] then
      pure (⟨insertionIndex lines, 0, chunk.newLines⟩, lineIndex)
    else
      match locate lines lineIndex chunk with
      | some replacement => pure (replacement, replacement.startIndex + replacement.oldLen)
      | none => throw (.linesNotFound path chunk.oldLines)

def collectReplacements (lines : List Str) (path : Str) (lineIndex : Nat)
    : List UpdateFileChunk → Except ReplacementError (List Replacement)
  | [] => pure []
  | chunk :: chunks =>
    match computeReplacement lines path lineIndex chunk with
    | .error e => throw e
    | .ok (replacement, lineIndex) =>
      match collectReplacements lines path lineIndex chunks with
      | .error e => throw e
      | .ok replacements => pure (replacement :: replacements)

def computeReplacements (chunks : List UpdateFileChunk) : Except ReplacementError (List Replacement) :=
  match collectReplacements lines path 0 chunks with
  | .error e => throw e
  | .ok replacements => pure (replacements.insertionSort (·.startIndex ≤ ·.startIndex))

def removeLines (lines : List Str) (start : Nat) : Nat → List Str
  | 0 => lines
  | n + 1 => removeLines (if start < lines.length then lines.eraseIdx start else lines) start n

def insertLines (lines : List Str) (start : Nat) : List Str → List Str
  | [] => lines
  | line :: rest => insertLines (lines.insertIdx start line) (start + 1) rest

def applyReplacement (replacement : Replacement) : List Str :=
  insertLines (removeLines lines replacement.startIndex replacement.oldLen) replacement.startIndex
    replacement.newLines

-- From the last replacement to the first, so that none moves the lines another one speaks of.
def applyReplacements (replacements : List Replacement) : List Str :=
  replacements.reverse.foldl applyReplacement lines

def newContents (original path : Str) (chunks : List UpdateFileChunk) : Except ReplacementError Str :=
  let lines := dropEmptyEnd (original.splitOn '\n')
  match computeReplacements lines path chunks with
  | .error e => throw e
  | .ok replacements =>
    let newLines := applyReplacements lines replacements
    pure (List.intercalate ['\n'] (if endsEmpty newLines then newLines else newLines ++ [[]]))

end

open List

def levels : List (Str → Str) := [id, trimEnd, trim, normalise]

section

variable (lines pattern : List Str)

def places (start : Nat) (canon : Str → Str) : Set Nat :=
  { i | start ≤ i ∧ i + pattern.length ≤ lines.length ∧ matchesAt canon lines pattern i = true }

def Absent (start : Nat) : Prop := ∀ canon ∈ levels, places lines pattern start canon = ∅

def IsStrictest (start : Nat) : Option Nat → Prop
  | some i => ∃ stricter canon weaker, levels = stricter ++ canon :: weaker ∧
      IsLeast (places lines pattern start canon) i ∧ ∀ canon ∈ stricter, places lines pattern start canon = ∅
  | none => Absent lines pattern start

-- With `eof` the end of the file comes first, and the places from `start` on come after it.
def Sought (start : Nat) (eof : Bool) (result : Option Nat) : Prop :=
  let lastPlace := lines.length - pattern.length
  if eof then
    (¬Absent lines pattern lastPlace → result = some lastPlace) ∧
      (Absent lines pattern lastPlace → IsStrictest lines pattern start result)
  else IsStrictest lines pattern start result

end

variable {lines pattern : List Str} (hpattern : pattern ≠ [])

include hpattern

theorem le_of_matchesAt (h : matchesAt canon lines pattern i = true)
    : i + pattern.length ≤ lines.length := by
  have hlen := congrArg length (beq_iff_eq.mp h)
  have hpos := length_pos_iff.mpr hpattern
  simp only [length_map, length_take, length_drop] at hlen
  omega

theorem seekFrom_eq_some
    : seekFrom canon lines pattern start = some i ↔ IsLeast (places lines pattern start canon) i := by
  unfold seekFrom
  rw [find?_range'_eq_some, mem_range'_1]
  constructor
  . intro ⟨hmatch, hrange, hleast⟩
    refine ⟨⟨hrange.1, le_of_matchesAt hpattern hmatch, hmatch⟩, ?_⟩
    intro j hj
    by_contra hlt
    simpa [hj.2.2] using hleast j hj.1 (by omega)
  . intro ⟨⟨hstart, hle, hmatch⟩, hleast⟩
    refine ⟨hmatch, by omega, ?_⟩
    intro j hj hlt
    by_contra hnot
    rw [Bool.not_eq_true', Bool.not_eq_false] at hnot
    have := hleast ⟨hj, le_of_matchesAt hpattern hnot, hnot⟩
    omega

theorem seekFrom_eq_none
    : seekFrom canon lines pattern start = none ↔ places lines pattern start canon = ∅ := by
  unfold seekFrom
  rw [find?_range'_eq_none, Set.eq_empty_iff_forall_notMem]
  constructor
  . intro h i ⟨hstart, hle, hmatch⟩
    simpa [hmatch] using h i hstart (by omega)
  . intro h i hstart _
    rw [Bool.not_eq_true', ← Bool.not_eq_true]
    intro hmatch
    exact h i ⟨hstart, le_of_matchesAt hpattern hmatch, hmatch⟩

theorem isStrictest_iff (result : Option Nat)
    : IsStrictest lines pattern start result ↔ levels.findSome? (seekFrom · lines pattern start) = result := by
  cases result with
  | none => simp only [findSome?_eq_none_iff, seekFrom_eq_none hpattern, IsStrictest, Absent]
  | some i =>
    simp only [findSome?_eq_some_iff, seekFrom_eq_some hpattern, seekFrom_eq_none hpattern, IsStrictest]

theorem seekSequence?_eq_some (start : Nat) (eof : Bool)
    : seekSequence? lines pattern start eof = some (levels.findSome?
      (seekFrom · lines pattern (if eof then lines.length - pattern.length else start))) := by
  rw [seekSequence?_eq, if_neg hpattern, Option.some_inj]
  split
  next hlong =>
    symm
    rw [← isStrictest_iff hpattern]
    intro canon _
    apply Set.eq_empty_of_forall_notMem
    intro i ⟨_, hle, _⟩
    omega
  . generalize (if eof then lines.length - pattern.length else start) = k
    simp only [levels, findSome?_cons]
    cases seekFrom id lines pattern k <;> cases seekFrom trimEnd lines pattern k <;>
      cases seekFrom trim lines pattern k <;> cases seekFrom normalise lines pattern k <;> rfl

omit hpattern

theorem seekSequence_sought_iff (lines : List Str) (line : Str) (rest : List Str) (start : Nat) (eof : Bool)
    : let pattern := line :: rest
      let lastPlace := lines.length - pattern.length
      ∃ result, seekSequence? lines pattern start eof = some result ∧
        (Sought lines pattern start eof result ↔
          (eof = true → Absent lines pattern lastPlace → Absent lines pattern start)) := by
  intro pattern lastPlace
  have hpattern : pattern ≠ [] := cons_ne_nil line rest
  refine ⟨_, seekSequence?_eq_some hpattern start eof, ?_⟩
  cases eof with
  | false => simp [Sought, isStrictest_iff hpattern]
  | true =>
    simp only [Sought, if_true, true_implies]
    generalize hresult : levels.findSome? (seekFrom · lines pattern lastPlace) = result
    rw [← isStrictest_iff hpattern] at hresult
    cases result with
    | none =>
      apply (and_iff_right _).trans Iff.rfl
      intro hnot
      exact absurd hresult hnot
    | some i =>
      obtain ⟨_, canon, _, hlevels, ⟨⟨hle, hbound, hmatch⟩, _⟩, _⟩ := hresult
      have hnot : ¬Absent lines pattern lastPlace := by
        intro habsent
        have hempty := habsent canon (by simp [hlevels])
        exact Set.eq_empty_iff_forall_notMem.mp hempty i ⟨hle, hbound, hmatch⟩
      have hi : i = lastPlace := by omega
      rw [hi]
      exact ⟨fun _ habsent => absurd habsent hnot, fun _ => ⟨fun _ => rfl, fun habsent => absurd habsent hnot⟩⟩

theorem seekSequence_misses_earlier
    : seekSequence? [['a'], ['b']] [['a']] 0 true = some none ∧ 0 ∈ places [['a'], ['b']] [['a']] 0 id := by
  refine ⟨by decide, Nat.le_refl 0, by decide, by decide⟩

end Codex.ApplyPatch
