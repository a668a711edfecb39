import AppSuite.Text.Split
import AppSuite.Text.Whitespace

/-!
This module contains the text splitters of the indexing pipeline.
-/

namespace Dify

abbrev Str := List Char

structure Re where
  search : Str → Str → Bool
  split : Str → Str → List Str

-- Lengths are measured in characters. The constructor raises a `ValueError` for a larger overlap.
structure TextSplitter where
  chunkSize : Nat
  chunkOverlap : Nat
  keepSeparator : Bool
  overlap_le : chunkOverlap ≤ chunkSize

structure RecursiveCharacterTextSplitter extends TextSplitter where
  separators : List Str

-- The fixed separator is the one that is given after `unicode_escape` has decoded it: each byte of
-- its UTF-8 form is a character of its own, so that only ASCII without a backslash stays the same.
structure FixedRecursiveCharacterTextSplitter extends RecursiveCharacterTextSplitter where
  fixedSeparator : Str

def joinPairs (splits : List Str) : List Str :=
  match splits with
  | before :: separator :: rest => (before ++ separator) :: joinPairs rest
  | rest => rest

def splitTextWithRegex (re : Re) (text separator : Str) (keepSeparator : Bool) : List Str :=
  let splits :=
    if separator = [] then
      text.map ([·])
    else if keepSeparator then
      joinPairs ((Text.split separator text).intersperse separator)
    else
      re.split separator text
  splits.filter fun s => s ≠ [] ∧ s ≠ ['\n']

namespace TextSplitter

variable (splitter : TextSplitter) (docs : List Str) (separator : Str)

def joinDocs : Option Str :=
  let text := Text.trim Text.Python.isSpace (separator.intercalate docs)
  if text = [] then none else some text

def popDocs (separatorLen len : Nat) (currentDoc : List Str) (total : Nat) : List Str × Nat :=
  match currentDoc with
  | [] => ([], total)
  | d :: rest =>
    if total > splitter.chunkOverlap ∨ (total + len + separatorLen > splitter.chunkSize ∧ total > 0) then
      popDocs separatorLen len rest (total - (d.length + if rest = [] then 0 else separatorLen))
    else
      (d :: rest, total)

structure Merging where
  docs : List Str := []
  currentDoc : List Str := []
  total : Nat := 0

def Merging.flush (st : Merging) (separator : Str) : List Str :=
  st.docs ++ (joinDocs st.currentDoc separator).toList

def makeRoom (st : Merging) (len : Nat) : Merging :=
  let joint := if st.currentDoc = [] then 0 else separator.length
  if st.total + len + joint > splitter.chunkSize ∧ st.currentDoc ≠ [] then
    let popped := splitter.popDocs separator.length len st.currentDoc st.total
    { docs := st.flush separator, currentDoc := popped.1, total := popped.2 }
  else
    st

def mergeStep (st : Merging) (d : Str) : Merging :=
  let st := splitter.makeRoom separator st d.length
  { st with
    currentDoc := st.currentDoc ++ [d]
    total := st.total + d.length + if st.currentDoc = [] then 0 else separator.length }

def mergeSplits (splits : List Str) (separator : Str) : List Str :=
  (splits.foldl (splitter.mergeStep separator) {}).flush separator

structure Collecting where
  finalChunks : List Str := []
  goodSplits : List Str := []

def Collecting.flush (st : Collecting) (separator : Str) : List Str :=
  if st.goodSplits = [] then st.finalChunks
  else st.finalChunks ++ splitter.mergeSplits st.goodSplits separator

def collectStep (descend : Str → List Str) (st : Collecting) (s : Str) : Collecting :=
  if s.length < splitter.chunkSize then
    { st with goodSplits := st.goodSplits ++ [s] }
  else
    { finalChunks := st.flush splitter separator ++ descend s }

def collect (descend : Str → List Str) (splits : List Str) : List Str :=
  let st := splits.foldl (splitter.collectStep separator descend) {}
  st.flush splitter separator

end TextSplitter

def chooseSeparator (found : Str → Bool) (last : Str) (separators : List Str) : Str × List Str :=
  match separators with
  | [] => (last, [])
  | s :: rest =>
    if s = [] then ([], [])
    else if found s then (s, rest)
    else chooseSeparator found last rest

theorem length_chooseSeparator (found : Str → Bool) (last : Str) (separators : List Str)
    : (chooseSeparator found last separators).2 = []
      ∨ (chooseSeparator found last separators).2.length < separators.length := by
  induction separators with
  | nil => exact .inl rfl
  | cons s rest ih =>
    rw [chooseSeparator, List.length_cons]
    split
    . exact .inl rfl
    . split
      . exact .inr (Nat.lt_succ_self _)
      . exact ih.imp_right Nat.lt_succ_of_lt

namespace RecursiveCharacterTextSplitter

variable (re : Re) (splitter : RecursiveCharacterTextSplitter)

def joiner (separator : Str) : Str := if splitter.keepSeparator then [] else separator

def splitTextAt (text : Str) (separators : List Str) : List Str :=
  let chosen := chooseSeparator (re.search · text) (separators.getLastD []) separators
  splitter.collect (splitter.joiner chosen.1)
    (fun s => if chosen.2 = [] then [s] else splitTextAt s chosen.2)
    (splitTextWithRegex re text chosen.1 splitter.keepSeparator)
termination_by separators.length
decreasing_by
  next h => exact (length_chooseSeparator _ _ _).resolve_left h

def splitText (text : Str) : List Str := splitter.splitTextAt re text splitter.separators

end RecursiveCharacterTextSplitter

namespace FixedRecursiveCharacterTextSplitter

variable (re : Re) (splitter : FixedRecursiveCharacterTextSplitter)

def splits (text separator : Str) : List Str :=
  let splits :=
    if separator = [] then
      text.map ([·])
    else if separator = [' '] then
      -- The pattern takes a run of spaces at once; the empty pieces between them are dropped below.
      text.splitOnP (· = ' ')
    else if splitter.keepSeparator then
      (Text.split separator text).dropLast.map (· ++ separator) ++ (Text.split separator text).getLast?.toList
    else
      Text.split separator text
  if separator = ['\n'] then
    splits.filter (· ≠ [])
  else
    splits.filter fun s => s ≠ [] ∧ s ≠ ['\n']

structure Filling where
  finalChunks : List Str := []
  currentPart : Str := []
  currentLength : Nat := 0
  overlapPart : Str := []
  overlapPartLength : Nat := 0

def fillStep (st : Filling) (s : Str) : Filling :=
  if st.currentLength + s.length ≤ splitter.chunkSize - splitter.chunkOverlap then
    { st with
      currentPart := st.currentPart ++ s
      currentLength := st.currentLength + s.length }
  else if st.currentLength + s.length ≤ splitter.chunkSize then
    { st with
      currentPart := st.currentPart ++ s
      currentLength := st.currentLength + s.length
      overlapPart := st.overlapPart ++ s
      overlapPartLength := st.overlapPartLength + s.length }
  else
    { finalChunks := st.finalChunks ++ [st.currentPart]
      currentPart := st.overlapPart ++ s
      currentLength := s.length + st.overlapPartLength }

def Filling.flush (st : Filling) : List Str :=
  if st.currentPart = [] then st.finalChunks else st.finalChunks ++ [st.currentPart]

def recursiveSplitText (text : Str) : List Str :=
  let chosen := chooseSeparator (fun s => s <:+: text) (splitter.separators.getLastD []) splitter.separators
  let splits := splitter.splits text chosen.1
  if chosen.1 ≠ [] then
    splitter.collect (splitter.joiner chosen.1)
      (fun s => if chosen.2 = [] then [s] else splitter.splitTextAt re s chosen.2) splits
  else
    (splits.foldl splitter.fillStep {}).flush

def chunks (text : Str) : List Str :=
  if splitter.fixedSeparator = [] then [text] else Text.split splitter.fixedSeparator text

def splitText (text : Str) : List Str :=
  (splitter.chunks text).flatMap fun chunk =>
    if chunk.length > splitter.chunkSize then splitter.recursiveSplitText re chunk else [chunk]

end FixedRecursiveCharacterTextSplitter

open List

structure Tokenizer (τ : Type) where
  chunkOverlap : Nat
  tokensPerChunk : Nat
  decode : List τ → Str
  encode : Str → List τ

variable {τ : Type} (tokenizer : Tokenizer τ) (inputIds : List τ)

def chunkIds (startIdx : Nat) : List τ :=
  let curIdx := min (startIdx + tokenizer.tokensPerChunk) inputIds.length
  (inputIds.take curIdx).drop startIdx

-- The `while` loop, as long as it ends within `fuel` rounds.
def splitLoop (fuel startIdx : Nat) (splits : List Str) : Option (List Str) :=
  match fuel with
  | 0 => none
  | fuel + 1 =>
    if startIdx < inputIds.length then
      splitLoop fuel (startIdx + (tokenizer.tokensPerChunk - tokenizer.chunkOverlap))
        (splits ++ [tokenizer.decode (chunkIds tokenizer inputIds startIdx)])
    else
      some splits

def splitTextOnTokens (fuel : Nat) (text : Str) : Option (List Str) :=
  splitLoop tokenizer (tokenizer.encode text) fuel 0 []

theorem splitLoop_eq_none (hstep : tokenizer.tokensPerChunk ≤ tokenizer.chunkOverlap)
    (hstart : startIdx < inputIds.length) (fuel : Nat) (splits : List Str)
    : splitLoop tokenizer inputIds fuel startIdx splits = none := by
  induction fuel generalizing splits with
  | zero => rfl
  | succ fuel ih =>
    rw [splitLoop, if_pos hstart, Nat.sub_eq_zero_of_le hstep]
    apply ih

theorem splitLoop_eq_some {step : Nat} (hstep : step = tokenizer.tokensPerChunk - tokenizer.chunkOverlap)
    (hpos : 0 < step) (startIdx : Nat) (splits : List Str)
    : ∃ fuel n,
        splitLoop tokenizer inputIds fuel startIdx splits
          = some (splits ++ (range n).map fun k =>
              tokenizer.decode (chunkIds tokenizer inputIds (startIdx + k * step)))
        ∧ ∀ i, startIdx ≤ i → i < inputIds.length →
            ∃ k < n, startIdx + k * step ≤ i ∧ i < startIdx + k * step + tokenizer.tokensPerChunk := by
  by_cases h : startIdx < inputIds.length
  . obtain ⟨fuel, n, heq, hcover⟩ := splitLoop_eq_some hstep hpos (startIdx + step)
      (splits ++ [tokenizer.decode (chunkIds tokenizer inputIds startIdx)])
    have hnext : ∀ k, startIdx + (k + 1) * step = startIdx + step + k * step := by
      intro k
      rw [Nat.succ_mul]
      omega
    refine ⟨fuel + 1, n + 1, ?_, ?_⟩
    . rw [splitLoop, if_pos h, ← hstep, heq, range_succ_eq_map]
      simp [Function.comp_def, hnext]
    . intro i hle hlt
      -- The step is no longer than a chunk, so what lies before the next chunk lies in this one.
      by_cases hi : i < startIdx + step
      . refine ⟨0, ?_⟩
        omega
      . obtain ⟨k, hk, hcovers⟩ := hcover i (by omega) hlt
        refine ⟨k + 1, ?_⟩
        rw [hnext]
        omega
  . refine ⟨1, 0, ?_, ?_⟩
    . simp [splitLoop, h]
    . intros
      omega
termination_by inputIds.length - startIdx

-- `n` chunks of at most `chunkSize` tokens, each `chunkSize - chunkOverlap` tokens after the one before
-- it, in which every token lies.
def Tokenizer.Windows (n : Nat) (splits : List Str) : Prop :=
  let start k := k * (tokenizer.tokensPerChunk - tokenizer.chunkOverlap)
  let chunk k := chunkIds tokenizer inputIds (start k)
  splits = (range n).map (fun k => tokenizer.decode (chunk k))
  ∧ (∀ k < n, (chunk k).length ≤ tokenizer.tokensPerChunk)
  ∧ ∀ i < inputIds.length, ∃ k < n, start k ≤ i ∧ i < start k + tokenizer.tokensPerChunk

-- The tokenizer of a `TokenTextSplitter`.
def TextSplitter.toTokenizer (splitter : TextSplitter) (decode : List τ → Str) (encode : Str → List τ)
    : Tokenizer τ :=
  { chunkOverlap := splitter.chunkOverlap, tokensPerChunk := splitter.chunkSize, decode, encode }

theorem splitTextOnTokens_windows_iff (splitter : TextSplitter) (decode : List τ → Str)
    (encode : Str → List τ) (text : Str)
    : (∃ fuel n splits, splitTextOnTokens (splitter.toTokenizer decode encode) fuel text = some splits
        ∧ (splitter.toTokenizer decode encode).Windows (encode text) n splits)
      ↔ splitter.chunkOverlap < splitter.chunkSize ∨ encode text = [] := by
  constructor
  . intro h
    obtain ⟨fuel, n, splits, heq, -⟩ := h
    by_contra hnot
    rw [not_or, Nat.not_lt, ← Ne, ← length_pos_iff] at hnot
    cases (splitLoop_eq_none (splitter.toTokenizer decode encode) _ hnot.1 hnot.2 fuel []).symm.trans heq
  . intro h
    cases h with
    | inl hlt =>
      obtain ⟨fuel, n, heq, hcover⟩ := splitLoop_eq_some (splitter.toTokenizer decode encode) (encode text) rfl
        (Nat.sub_pos_of_lt hlt) 0 []
      simp only [Nat.zero_add] at heq hcover
      refine ⟨fuel, n, _, heq, rfl, ?_, fun i => hcover i (Nat.zero_le i)⟩
      intro k hk
      simp only [chunkIds, length_drop, length_take]
      omega
    | inr hnil =>
      refine ⟨1, 0, [], ?_, ?_⟩
      . simp [splitTextOnTokens, splitLoop, TextSplitter.toTokenizer, hnil]
      . simp [Tokenizer.Windows, hnil]

theorem splitTextOnTokens_overlap_eq_size
    : ¬∃ fuel splits,
        splitTextOnTokens (TextSplitter.toTokenizer ⟨1, 1, false, Nat.le_refl 1⟩ id id) fuel ['a']
          = some splits := by
  intro h
  obtain ⟨fuel, splits, heq⟩ := h
  rw [splitTextOnTokens, splitLoop_eq_none _ _ (Nat.le_refl 1) Nat.zero_lt_one] at heq
  cases heq

end Dify
