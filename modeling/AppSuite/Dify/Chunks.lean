import AppSuite.Dify.TextSplitter
import AppSuite.Text.Words

/-!
This module contains how long the chunks of a text are, and what they have of it.
-/

namespace Dify

open List Text FixedRecursiveCharacterTextSplitter TextSplitter RecursiveCharacterTextSplitter

def squeeze (s : Str) : Str := s.filter (!Python.isSpace ·)

-- What the chunks are to have of a text, as far as it depends on its words only.
structure Keeping where
  Has : Str → List Str → Prop
  nil : Has [] []
  singleton : ∀ s, Has s [s]
  append : ∀ {s t cs ds}, Has s cs → Has t ds → Has (s ++ t) (cs ++ ds)
  congr : ∀ {s t cs}, words Python.isSpace s = words Python.isSpace t → Has s cs → Has t cs

def Keeping.Rejoins (K : Keeping) (text rejoined : Str) : Prop := ∀ chunks, K.Has rejoined chunks → K.Has text chunks

theorem Keeping.rejoins_of_words {K : Keeping} (h : words Python.isSpace rejoined = words Python.isSpace text)
    : K.Rejoins text rejoined :=
  fun _ => K.congr h

theorem Keeping.rejoins_self {K : Keeping} {text : Str} : K.Rejoins text text := fun _ h => h

def squeezed : Keeping where
  Has s chunks := squeeze chunks.flatten = squeeze s
  nil := rfl
  singleton s := by rw [flatten_singleton]
  append h hmore := by
    rw [flatten_append, squeeze, squeeze, filter_append, filter_append]
    exact congrArg₂ _ h hmore
  congr hwords h := by
    rw [h, squeeze, squeeze, ← flatten_words, hwords, flatten_words]

def worded : Keeping where
  Has s chunks := Cuts (chunks.flatMap (words Python.isSpace)) (words Python.isSpace s)
  nil := .refl _
  singleton s := by
    rw [flatMap_singleton]
    exact .refl _
  append h hmore := by
    rw [flatMap_append]
    exact (h.append hmore).trans .words_append
  congr hwords h := by
    rw [← hwords]
    exact h

theorem words_trim (s : Str) : words Python.isSpace (trim Python.isSpace s) = words Python.isSpace s := by
  have hsplit := @Text.leading_append_trim_append_trailing Python.isSpace s
  conv => rhs; rw [← hsplit]
  rw [words_of_blank_append fun _ => blank_of_mem_leading,
    words_append_of_blank fun _ => blank_of_mem_trailing]

-- The loops over the splits go on from what they have seen.
theorem foldl_seen {σ : Type} {step : σ → Str → σ} (Inv : σ → Str → Prop) {splits : List Str}
    (hstep : ∀ s ∈ splits, ∀ st seen, Inv st seen → Inv (step st s) (seen ++ s)) {st : σ} {seen : Str}
    (h : Inv st seen)
    : Inv (splits.foldl step st) (seen ++ splits.flatten) := by
  induction splits generalizing st seen with
  | nil =>
    rw [flatten_nil, append_nil]
    exact h
  | cons s splits ih =>
    rw [forall_mem_cons] at hstep
    rw [foldl_cons, flatten_cons, ← append_assoc]
    exact ih hstep.2 (hstep.1 st seen h)

section Splits

variable {K : Keeping} {pieces : List Str} {text separator : Str}

def keptPieces (separator : Str) (pieces : List Str) : List Str :=
  pieces.dropLast.map (· ++ separator) ++ pieces.getLast?.toList

theorem keptPieces_cons_cons (separator piece next : Str) (pieces : List Str)
    : keptPieces separator (piece :: next :: pieces)
      = (piece ++ separator) :: keptPieces separator (next :: pieces) := by
  simp [keptPieces, getLast?_cons_cons]

theorem joinPairs_intersperse (separator : Str) (pieces : List Str)
    : joinPairs (pieces.intersperse separator) = keptPieces separator pieces := by
  induction pieces with
  | nil => rfl
  | cons piece pieces ih =>
    cases pieces with
    | nil => rfl
    | cons next pieces =>
      rw [keptPieces_cons_cons, ← ih]
      rfl

-- Only at the end is a piece dropped that is not a separator, and there it is blank.
theorem exists_dropped_end {keep : Str → Bool} (hkeep : ∀ piece, keep (piece ++ separator) = true)
    (hblank : ∀ piece, keep piece = false → ∀ c ∈ piece, Python.isSpace c = true) (h : pieces ≠ [])
    : ∃ w, (∀ c ∈ w, Python.isSpace c = true)
      ∧ separator.intercalate pieces = ((keptPieces separator pieces).filter keep).flatten ++ w := by
  induction pieces with
  | nil => exact absurd rfl h
  | cons piece pieces ih =>
    cases pieces with
    | nil =>
      have hkept : keptPieces separator [piece] = [piece] := rfl
      rw [hkept]
      cases hpiece : keep piece with
      | true => exact ⟨[], nofun, by simp [hpiece]⟩
      | false => exact ⟨piece, hblank piece hpiece, by simp [hpiece]⟩
    | cons next pieces =>
      obtain ⟨w, hw, heq⟩ := ih (cons_ne_nil _ _)
      refine ⟨w, hw, ?_⟩
      rw [intercalate_cons_cons, heq, keptPieces_cons_cons, filter_cons_of_pos (hkeep piece), flatten_cons,
        List.append_assoc, List.append_assoc, List.append_assoc]

def solid (s : Str) : Bool := s ≠ [] ∧ s ≠ ['\n']

theorem blank_of_not_solid (h : solid s = false) : ∀ c ∈ s, Python.isSpace c = true := by
  rw [solid, decide_eq_false_iff_not, not_and_or, not_not, not_not] at h
  cases h with
  | inl h =>
    rw [h]
    nofun
  | inr h =>
    rw [h, forall_mem_singleton]
    rfl

-- A line break that is dropped comes after another one.
theorem words_kept_lines (h : pieces ≠ [])
    : words Python.isSpace ((keptPieces ['\n'] pieces).filter solid).flatten
      = words Python.isSpace (['\n'].intercalate pieces) := by
  have hbreak : Python.isSpace '\n' = true := by decide
  induction pieces with
  | nil => exact absurd rfl h
  | cons piece pieces ih =>
    cases pieces with
    | nil =>
      have hkept : keptPieces ['\n'] [piece] = [piece] := rfl
      rw [hkept]
      cases hpiece : solid piece with
      | true => simp [hpiece]
      | false => simp [hpiece, words_of_blank (blank_of_not_solid hpiece), words_of_blank]
    | cons next pieces =>
      have hrest := ih (cons_ne_nil _ _)
      rw [keptPieces_cons_cons, intercalate_cons_cons, List.append_assoc, singleton_append,
        words_append_blank_cons hbreak, ← hrest]
      cases hpiece : solid (piece ++ ['\n']) with
      | true =>
        rw [filter_cons_of_pos hpiece, flatten_cons, List.append_assoc, singleton_append,
          words_append_blank_cons hbreak]
      | false =>
        have hblank := forall_mem_append.mp (blank_of_not_solid hpiece)
        rw [filter_cons_of_neg (by simp [hpiece]), words_of_blank hblank.1, nil_append]

theorem filter_solid_chars (text : Str)
    : (text.map ([·])).filter solid = (text.filter (· ≠ '\n')).map ([·]) := by
  rw [filter_map]
  congr 1
  apply filter_congr
  simp [solid]

theorem flatten_chars (text : Str) : (text.map ([·])).flatten = text := by
  rw [← flatMap_def, flatMap_singleton']

-- The splits have what is to be kept of the text, and none of them is empty.
structure Splits (K : Keeping) (text : Str) (splits : List Str) : Prop where
  ne_nil : ∀ s ∈ splits, s ≠ []
  text : K.Rejoins text splits.flatten

def RejoinsChars (K : Keeping) (part : Str) : Prop := K.Rejoins part (part.filter (· ≠ '\n'))

theorem ne_nil_of_mem_solid (hs : s ∈ pieces.filter solid) : s ≠ [] := by
  have := (mem_filter.mp hs).2
  rw [solid, decide_eq_true_iff] at this
  exact this.1

theorem splits_chars (h : RejoinsChars K text) : Splits K text ((text.map ([·])).filter solid) := by
  refine ⟨fun s => ne_nil_of_mem_solid, ?_⟩
  rw [filter_solid_chars, flatten_chars]
  exact h

theorem splits_kept {keep : Str → Bool} (hkeep : ∀ piece, keep (piece ++ separator) = true)
    (hblank : ∀ piece, keep piece = false → ∀ c ∈ piece, Python.isSpace c = true) (hne : keep [] = false)
    : Splits K text ((keptPieces separator (split separator text)).filter keep) := by
  constructor
  . rintro s hs rfl
    have := (mem_filter.mp hs).2
    simp [hne] at this
  . obtain ⟨w, hw, heq⟩ := exists_dropped_end hkeep hblank (split_ne_nil separator text)
    apply Keeping.rejoins_of_words
    rw [← words_append_of_blank hw, ← heq, intercalate_split]

theorem solid_append (hsep : separator ≠ []) (hline : separator ≠ ['\n']) (piece : Str)
    : solid (piece ++ separator) = true := by
  rw [solid, decide_eq_true_iff]
  refine ⟨append_ne_nil_of_right_ne_nil _ hsep, ?_⟩
  intro heq
  rcases append_eq_singleton_iff.mp heq with ⟨_, h⟩ | ⟨_, h⟩
  . exact hline h
  . exact hsep h

theorem splits_splitTextWithRegex (re : Re) (hchars : separator = [] → RejoinsChars K text)
    : Splits K text (splitTextWithRegex re text separator true) := by
  unfold splitTextWithRegex
  rw [if_pos rfl]
  change Splits K text (filter solid _)
  split
  . next hsep => exact splits_chars (hchars hsep)
  . next hsep =>
    rw [joinPairs_intersperse]
    by_cases hline : separator = ['\n']
    . subst hline
      refine ⟨fun s => ne_nil_of_mem_solid, Keeping.rejoins_of_words ?_⟩
      rw [words_kept_lines (split_ne_nil _ text), intercalate_split]
    . exact splits_kept (solid_append hsep hline) (fun _ => blank_of_not_solid) rfl

theorem splits_fixed {splitter : FixedRecursiveCharacterTextSplitter} (hkeep : splitter.keepSeparator = true)
    (hchars : separator = [] → RejoinsChars K text)
    (hspace : separator = [' '] → K.Rejoins text ((text.splitOnP (· = ' ')).filter solid).flatten)
    : Splits K text (splitter.splits text separator) := by
  unfold FixedRecursiveCharacterTextSplitter.splits
  rw [hkeep, if_pos rfl]
  by_cases hsep : separator = []
  . subst hsep
    exact splits_chars (hchars rfl)
  . rw [if_neg hsep]
    by_cases hblank : separator = [' ']
    . subst hblank
      exact ⟨fun s => ne_nil_of_mem_solid, hspace rfl⟩
    . rw [if_neg hblank]
      dsimp only
      split
      . apply splits_kept
        . intro piece
          simp [hsep]
        . intro piece hpiece
          rw [decide_eq_false_iff_not, not_not] at hpiece
          rw [hpiece]
          nofun
        . rfl
      . next hline => exact splits_kept (solid_append hsep hline) (fun _ => blank_of_not_solid) rfl

end Splits

namespace TextSplitter

structure Chunked (K : Keeping) (splitter : TextSplitter) (text : Str) (chunks : List Str) : Prop where
  length_le : ∀ chunk ∈ chunks, chunk.length ≤ splitter.chunkSize
  text : splitter.chunkOverlap = 0 → K.Has text chunks

variable {K : Keeping} {splitter : TextSplitter}

theorem Chunked.nil : splitter.Chunked K [] [] := ⟨nofun, fun _ => K.nil⟩

theorem Chunked.singleton {s : Str} (h : s.length ≤ splitter.chunkSize) : splitter.Chunked K s [s] := by
  refine ⟨?_, ?_⟩
  . rwa [forall_mem_singleton]
  . intro _
    exact K.singleton s

theorem Chunked.append {s t : Str} {chunks more : List Str} (h : splitter.Chunked K s chunks)
    (hmore : splitter.Chunked K t more)
    : splitter.Chunked K (s ++ t) (chunks ++ more) := by
  constructor
  . rw [forall_mem_append]
    exact ⟨h.length_le, hmore.length_le⟩
  . intro hoverlap
    exact K.append (h.text hoverlap) (hmore.text hoverlap)

theorem Chunked.congr {s t : Str} {chunks : List Str} (h : splitter.Chunked K s chunks)
    (heq : splitter.chunkOverlap = 0 → K.Rejoins t s)
    : splitter.Chunked K t chunks :=
  ⟨h.length_le, fun hoverlap => heq hoverlap chunks (h.text hoverlap)⟩

theorem Chunked.flatMap {parts : List Str} {f : Str → List Str}
    (h : ∀ part ∈ parts, splitter.Chunked K part (f part))
    : splitter.Chunked K parts.flatten (parts.flatMap f) := by
  induction parts with
  | nil => exact .nil
  | cons part parts ih =>
    rw [forall_mem_cons] at h
    exact h.1.append (ih h.2)

section Merge

theorem nil_intercalate (docs : List Str) : ([] : Str).intercalate docs = docs.flatten := by
  induction docs with
  | nil => rfl
  | cons d docs ih =>
    cases docs with
    | nil => simp
    | cons next docs => rw [intercalate_cons_cons, ih, append_nil, ← flatten_cons]

theorem Chunked.joinDocs {docs : List Str} (h : docs.flatten.length ≤ splitter.chunkSize)
    : splitter.Chunked K docs.flatten (joinDocs docs []).toList := by
  have htext := words_trim docs.flatten
  have hlength : (trim Python.isSpace docs.flatten).length ≤ splitter.chunkSize := by
    have := congrArg List.length
      (@Text.leading_append_trim_append_trailing Python.isSpace docs.flatten)
    rw [length_append, length_append] at this
    omega
  unfold TextSplitter.joinDocs
  rw [nil_intercalate]
  dsimp only
  split
  . next hnil =>
    rw [hnil] at htext
    exact Chunked.nil.congr fun _ => Keeping.rejoins_of_words htext
  . exact (Chunked.singleton hlength).congr fun _ => Keeping.rejoins_of_words htext

theorem popDocs_spec (splitter : TextSplitter) (len : Nat) (hne : ∀ d ∈ currentDoc, d ≠ [])
    : ∃ dropped kept : List Str, currentDoc = dropped ++ kept
        ∧ splitter.popDocs 0 len currentDoc currentDoc.flatten.length = (kept, kept.flatten.length)
        ∧ kept.flatten.length ≤ splitter.chunkOverlap
        ∧ (kept.flatten.length + len ≤ splitter.chunkSize ∨ kept.flatten.length = 0) := by
  induction currentDoc with
  | nil => exact ⟨[], [], rfl, rfl, Nat.zero_le _, .inr rfl⟩
  | cons d rest ih =>
    rw [forall_mem_cons] at hne
    rw [popDocs]
    split
    . have ⟨dropped, kept, hrest, hpop, hkept⟩ := ih hne.2
      have hlength : (d :: rest).flatten.length - (d.length + if rest = [] then 0 else 0)
          = rest.flatten.length := by
        rw [ite_self, flatten_cons, length_append]
        omega
      refine ⟨d :: dropped, kept, by rw [hrest, cons_append], ?_, hkept⟩
      rw [hlength, hpop]
    . next hstop =>
      refine ⟨[], d :: rest, rfl, rfl, ?_, ?_⟩
      . omega
      . omega

structure Merging.Inv (K : Keeping) (splitter : TextSplitter) (st : Merging) (seen : Str) : Prop where
  ne_nil : ∀ d ∈ st.currentDoc, d ≠ []
  total : st.total = st.currentDoc.flatten.length
  fits : st.total ≤ splitter.chunkSize
  docs : ∃ before, splitter.Chunked K before st.docs
    ∧ (splitter.chunkOverlap = 0 → before ++ st.currentDoc.flatten = seen)

variable {st : Merging} {seen : Str}

theorem Merging.Inv.flush (h : st.Inv K splitter seen) : splitter.Chunked K seen (st.flush []) := by
  have ⟨before, hdocs, hseen⟩ := h.docs
  have hfits := h.fits
  rw [h.total] at hfits
  apply (hdocs.append (Chunked.joinDocs hfits)).congr
  intro hoverlap
  rw [hseen hoverlap]
  exact Keeping.rejoins_self

theorem Merging.Inv.makeRoom (h : st.Inv K splitter seen) (hlen : len ≤ splitter.chunkSize)
    : (splitter.makeRoom [] st len).Inv K splitter seen
      ∧ (splitter.makeRoom [] st len).total + len ≤ splitter.chunkSize := by
  unfold TextSplitter.makeRoom
  dsimp only
  rw [length_nil, ite_self]
  split
  . have ⟨dropped, kept, hcurrent, hpop, hkept, hroom⟩ := popDocs_spec splitter len h.ne_nil
    rw [h.total, hpop]
    have hne : ∀ d ∈ kept, d ≠ [] := by
      intro d hd
      apply h.ne_nil
      rw [hcurrent]
      exact mem_append_right _ hd
    refine ⟨⟨hne, rfl, ?_, seen, h.flush, ?_⟩, ?_⟩
    . dsimp only
      omega
    . intro hzero
      rw [hzero, Nat.le_zero_eq, length_eq_zero_iff] at hkept
      rw [hkept, append_nil]
    . dsimp only
      omega
  . next hstay =>
    refine ⟨h, ?_⟩
    by_cases hnil : st.currentDoc = []
    . rw [h.total, hnil]
      simpa using hlen
    . exact Nat.le_of_not_lt fun hlt => hstay ⟨hlt, hnil⟩

theorem Merging.Inv.mergeStep (h : st.Inv K splitter seen) (hne : d ≠ [])
    (hlen : d.length ≤ splitter.chunkSize)
    : (splitter.mergeStep [] st d).Inv K splitter (seen ++ d) := by
  have ⟨hinv, hroom⟩ := h.makeRoom hlen
  have ⟨before, hdocs, hseen⟩ := hinv.docs
  unfold TextSplitter.mergeStep
  dsimp only
  rw [length_nil, ite_self]
  refine ⟨?_, ?_, hroom, before, hdocs, ?_⟩
  . rw [forall_mem_append, forall_mem_singleton]
    exact ⟨hinv.ne_nil, hne⟩
  . rw [hinv.total, flatten_append, flatten_singleton, length_append]
    rfl
  . intro hoverlap
    rw [← hseen hoverlap, flatten_append, flatten_singleton, append_assoc]

theorem Chunked.mergeSplits {splits : List Str} (hne : ∀ s ∈ splits, s ≠ [])
    (hlen : ∀ s ∈ splits, s.length ≤ splitter.chunkSize)
    : splitter.Chunked K splits.flatten (splitter.mergeSplits splits []) := by
  have hinit : Merging.Inv K splitter {} [] := ⟨nofun, rfl, Nat.zero_le _, [], .nil, fun _ => rfl⟩
  exact (foldl_seen (Merging.Inv K splitter) (fun s hs _ _ h => h.mergeStep (hne s hs) (hlen s hs)) hinit).flush

end Merge

section Collect

structure Collecting.Inv (K : Keeping) (splitter : TextSplitter) (st : Collecting) (seen : Str) : Prop where
  ne_nil : ∀ s ∈ st.goodSplits, s ≠ []
  fits : ∀ s ∈ st.goodSplits, s.length ≤ splitter.chunkSize
  chunks : ∃ before, splitter.Chunked K before st.finalChunks ∧ before ++ st.goodSplits.flatten = seen

variable {st : Collecting} {seen : Str}

theorem Collecting.Inv.flush (h : st.Inv K splitter seen) : splitter.Chunked K seen (st.flush splitter []) := by
  have ⟨before, hchunks, hseen⟩ := h.chunks
  unfold Collecting.flush
  split
  . next hnil =>
    rw [hnil, flatten_nil, append_nil] at hseen
    rw [← hseen]
    exact hchunks
  . rw [← hseen]
    exact hchunks.append (.mergeSplits h.ne_nil h.fits)

theorem Collecting.Inv.collectStep (h : st.Inv K splitter seen) {descend : Str → List Str} {s : Str}
    (hne : s ≠ []) (hdescend : splitter.chunkSize ≤ s.length → splitter.Chunked K s (descend s))
    : (splitter.collectStep [] descend st s).Inv K splitter (seen ++ s) := by
  unfold TextSplitter.collectStep
  split
  . next hlt =>
    have ⟨before, hchunks, hseen⟩ := h.chunks
    refine ⟨?_, ?_, before, hchunks, ?_⟩
    . rw [forall_mem_append, forall_mem_singleton]
      exact ⟨h.ne_nil, hne⟩
    . rw [forall_mem_append, forall_mem_singleton]
      exact ⟨h.fits, Nat.le_of_lt hlt⟩
    . rw [← hseen, flatten_append, flatten_singleton, append_assoc]
  . next hle =>
    refine ⟨nofun, nofun, seen ++ s, ?_, append_nil _⟩
    exact h.flush.append (hdescend (Nat.le_of_not_lt hle))

theorem Chunked.collect {descend : Str → List Str} {splits : List Str} (hne : ∀ s ∈ splits, s ≠ [])
    (hdescend : ∀ s ∈ splits, splitter.chunkSize ≤ s.length → splitter.Chunked K s (descend s))
    : splitter.Chunked K splits.flatten (splitter.collect [] descend splits) := by
  have hinit : Collecting.Inv K splitter {} [] := ⟨nofun, nofun, [], .nil, rfl⟩
  exact (foldl_seen (Collecting.Inv K splitter) (fun s hs _ _ h => h.collectStep (hne s hs) (hdescend s hs))
    hinit).flush

end Collect

end TextSplitter

theorem chooseSeparator_cases (found : Str → Bool) (last : Str) {separators : List Str}
    (h : separators.getLast? = some [])
    : (chooseSeparator found last separators = ([], [])
        ∧ ∀ s ∈ separators.takeWhile (· ≠ []), found s = false)
      ∨ ∃ s rest, chooseSeparator found last separators = (s, rest) ∧ rest.getLast? = some []
        ∧ s ≠ [] ∧ s ∈ separators.takeWhile (· ≠ []) ∧ found s = true := by
  induction separators with
  | nil => cases h
  | cons s rest ih =>
    rw [chooseSeparator]
    by_cases hs : s = []
    . simp [hs]
    . have hrest : rest.getLast? = some [] := by
        cases rest with
        | nil => simp_all
        | cons next rest => rwa [getLast?_cons_cons] at h
      have htake : (s :: rest).takeWhile (· ≠ []) = s :: rest.takeWhile (· ≠ []) :=
        takeWhile_cons_of_pos (by simpa using hs)
      rw [if_neg hs, htake]
      cases hfound : found s with
      | true => exact .inr ⟨s, rest, rfl, hrest, hs, mem_cons_self, hfound⟩
      | false =>
        cases ih hrest with
        | inl ih =>
          refine .inl ⟨ih.1, ?_⟩
          rw [forall_mem_cons]
          exact ⟨hfound, ih.2⟩
        | inr ih =>
          obtain ⟨s', rest', hchoose, hlast, hne, hmem, htrue⟩ := ih
          exact .inr ⟨s', rest', hchoose, hlast, hne, mem_cons_of_mem _ hmem, htrue⟩

theorem length_of_mem_splitTextWithRegex {re : Re} {text s : Str} {keepSeparator : Bool}
    (h : s ∈ splitTextWithRegex re text [] keepSeparator)
    : s.length = 1 := by
  unfold splitTextWithRegex at h
  rw [if_pos rfl, mem_filter, mem_map] at h
  obtain ⟨⟨c, _, rfl⟩, _⟩ := h
  rfl

def RecursiveCharacterTextSplitter.chosenAt (re : Re) (text : Str) (separators : List Str) : Str × List Str :=
  chooseSeparator (re.search · text) (separators.getLastD []) separators

-- The parts of a text that are cut into characters.
inductive RecursiveCharacterTextSplitter.CutIntoChars (re : Re) (splitter : RecursiveCharacterTextSplitter)
    : Str → List Str → Str → Prop
  | whole {text : Str} {separators : List Str} (h : (chosenAt re text separators).1 = [])
    : splitter.CutIntoChars re text separators text
  | inside {text s part : Str} {separators : List Str}
      (hs : s ∈ splitTextWithRegex re text (chosenAt re text separators).1 splitter.keepSeparator)
      (hlong : splitter.chunkSize ≤ s.length)
      (h : splitter.CutIntoChars re s (chosenAt re text separators).2 part)
    : splitter.CutIntoChars re text separators part

section Recursive

variable {K : Keeping} {splitter : RecursiveCharacterTextSplitter} {re : Re} (hsize : 1 ≤ splitter.chunkSize)
  (hkeep : splitter.keepSeparator = true)

include hsize hkeep

-- By induction on the separators that are left; the last one splits the text into characters.
theorem chunked_splitTextAt {separators : List Str} (h : separators.getLast? = some []) (text : Str)
    (hchars : ∀ part, splitter.CutIntoChars re text separators part → RejoinsChars K part)
    : splitter.Chunked K text (splitter.splitTextAt re text separators) := by
  induction hlength : separators.length using Nat.strong_induction_on generalizing separators text with
  | _ n ih =>
    have hchosen := length_chooseSeparator (re.search · text) (separators.getLastD []) separators
    rw [splitTextAt, joiner, hkeep]
    cases chooseSeparator_cases (re.search · text) (separators.getLastD []) h with
    | inl hcase =>
      have hsplits : Splits K text (splitTextWithRegex re text [] true) :=
        splits_splitTextWithRegex re fun _ => hchars text (.whole (congrArg Prod.fst hcase.1))
      rw [hcase.1]
      apply (Chunked.collect hsplits.ne_nil _).congr fun _ => hsplits.text
      intro s hs _
      apply Chunked.singleton
      rw [length_of_mem_splitTextWithRegex hs]
      exact hsize
    | inr hcase =>
      have ⟨separator, rest, heq, hlast, hsep, _⟩ := hcase
      have hsplits : Splits K text (splitTextWithRegex re text separator true) :=
        splits_splitTextWithRegex re fun hnil => absurd hnil hsep
      rw [heq] at hchosen ⊢
      have hne : rest ≠ [] := by
        rintro rfl
        cases hlast
      apply (Chunked.collect hsplits.ne_nil _).congr fun _ => hsplits.text
      intro s hs hlong
      rw [if_neg hne]
      apply ih rest.length _ hlast s _ rfl
      . rw [← hlength]
        exact hchosen.resolve_left hne
      . intro part hpart
        apply hchars
        refine .inside ?_ hlong ?_
        . rw [chosenAt, heq, hkeep]
          exact hs
        . rw [chosenAt, heq]
          exact hpart

end Recursive

namespace FixedRecursiveCharacterTextSplitter

variable {splitter : FixedRecursiveCharacterTextSplitter}

section Fill

variable {K : Keeping}

structure Filling.Counts (st : Filling) : Prop where
  current : st.currentLength = st.currentPart.length
  overlap : st.overlapPartLength = st.overlapPart.length

structure Filling.Inv (K : Keeping) (splitter : FixedRecursiveCharacterTextSplitter) (st : Filling) (seen : Str)
    : Prop
    extends st.Counts where
  fits : st.currentLength ≤ splitter.chunkSize
  behind : st.overlapPartLength = 0
    ∨ st.overlapPartLength + (splitter.chunkSize - splitter.chunkOverlap) ≤ st.currentLength
  le_seen : st.currentLength ≤ seen.length
  chunks : ∃ before, splitter.Chunked K before st.finalChunks
    ∧ (splitter.chunkOverlap = 0 → before ++ st.currentPart = seen)

variable {st : Filling} {seen s : Str}

theorem Filling.Counts.fillStep (h : st.Counts) : (splitter.fillStep st s).Counts := by
  have hcurrent := h.current
  have hoverlap := h.overlap
  unfold FixedRecursiveCharacterTextSplitter.fillStep
  split
  . exact ⟨by simp [hcurrent], hoverlap⟩
  . split
    . exact ⟨by simp [hcurrent], by simp [hoverlap]⟩
    . exact ⟨by simp [hoverlap, Nat.add_comm], rfl⟩

theorem Filling.Inv.fillStep (h : st.Inv K splitter seen) (hs : s.length = 1)
    (hroom : splitter.chunkOverlap < splitter.chunkSize ∨ seen.length < splitter.chunkSize)
    : (splitter.fillStep st s).Inv K splitter (seen ++ s) := by
  have ⟨before, hchunks, hseen⟩ := h.chunks
  have hcounts : (splitter.fillStep st s).Counts := h.toCounts.fillStep
  have hfits := h.fits
  have hbehind := h.behind
  have hlength := h.le_seen
  have hseenLength : (seen ++ s).length = seen.length + 1 := by rw [length_append, hs]
  have hnext : splitter.chunkOverlap = 0 → before ++ (st.currentPart ++ s) = seen ++ s := by
    intro hzero
    rw [← hseen hzero, append_assoc]
  unfold FixedRecursiveCharacterTextSplitter.fillStep at hcounts ⊢
  by_cases hfree : st.currentLength + s.length ≤ splitter.chunkSize - splitter.chunkOverlap
  . rw [if_pos hfree] at hcounts ⊢
    refine ⟨hcounts, ?_, ?_, ?_, before, hchunks, hnext⟩
    all_goals dsimp only; omega
  . rw [if_neg hfree] at hcounts ⊢
    by_cases hlast : st.currentLength + s.length ≤ splitter.chunkSize
    . rw [if_pos hlast] at hcounts ⊢
      refine ⟨hcounts, hlast, .inr ?_, ?_, before, hchunks, hnext⟩
      all_goals dsimp only; omega
    . rw [if_neg hlast] at hcounts ⊢
      refine ⟨hcounts, ?_, .inl rfl, ?_, before ++ st.currentPart, hchunks.append (.singleton ?_), ?_⟩
      . dsimp only
        omega
      . dsimp only
        omega
      . rw [← h.current]
        exact hfits
      . intro hzero
        have hnil : st.overlapPart = [] := by
          rw [← length_eq_zero_iff, ← h.overlap]
          omega
        rw [hnil, nil_append, append_assoc, hnext hzero]

theorem Filling.Inv.flush (h : st.Inv K splitter seen) : splitter.Chunked K seen st.flush := by
  have ⟨before, hchunks, hseen⟩ := h.chunks
  have hfits := h.fits
  rw [h.current] at hfits
  unfold Filling.flush
  split
  . next hnil =>
    apply hchunks.congr
    intro hzero
    rw [← hseen hzero, hnil, append_nil]
    exact Keeping.rejoins_self
  . apply (hchunks.append (.singleton hfits)).congr
    intro hzero
    rw [hseen hzero]
    exact Keeping.rejoins_self

theorem chunked_fill {splits : List Str} (hs : ∀ s ∈ splits, s.length = 1)
    (hroom : splitter.chunkOverlap < splitter.chunkSize ∨ splits.length ≤ splitter.chunkSize)
    : splitter.Chunked K splits.flatten (splits.foldl splitter.fillStep {}).flush := by
  have hinit : Filling.Inv K splitter {} [] :=
    ⟨⟨rfl, rfl⟩, Nat.zero_le _, .inl rfl, Nat.le_refl _, [], .nil, fun _ => rfl⟩
  have hstep : ∀ s ∈ splits, ∀ (st : Filling) (seen : Str),
      (splitter.chunkOverlap < splitter.chunkSize ∨ seen.length ≤ splitter.chunkSize
        → st.Inv K splitter seen)
      → splitter.chunkOverlap < splitter.chunkSize ∨ (seen ++ s).length ≤ splitter.chunkSize
      → (splitter.fillStep st s).Inv K splitter (seen ++ s) := by
    intro s hmem st seen h hroom
    rw [length_append, hs s hmem] at hroom
    exact (h (by omega)).fillStep (hs s hmem) (by omega)
  apply (foldl_seen _ hstep (fun _ => hinit) _).flush
  rw [nil_append, length_flatten, map_congr_left hs]
  simpa using hroom

-- With an overlap of the whole size all of the first chunk is taken over into the second.
def Filling.TooLong (splitter : FixedRecursiveCharacterTextSplitter) (st : Filling) : Prop :=
  st.Counts ∧ ∃ chunk ∈ st.finalChunks ++ [st.currentPart], splitter.chunkSize < chunk.length

theorem Filling.TooLong.fillStep (h : st.TooLong splitter) : (splitter.fillStep st s).TooLong splitter := by
  have ⟨hcounts, chunk, hmem, hlong⟩ := h
  have hcurrent := hcounts.current
  refine ⟨hcounts.fillStep, ?_⟩
  rw [mem_append, mem_singleton] at hmem
  unfold FixedRecursiveCharacterTextSplitter.fillStep
  by_cases hfree : st.currentLength + s.length ≤ splitter.chunkSize
  . have hfinal : chunk ∈ st.finalChunks := by
      apply hmem.resolve_right
      rintro rfl
      omega
    split
    . exact ⟨chunk, mem_append_left _ hfinal, hlong⟩
    . exact ⟨chunk, mem_append_left _ hfinal, hlong⟩
  . rw [if_neg (by omega), if_neg hfree]
    refine ⟨chunk, mem_append_left _ ?_, hlong⟩
    rw [mem_append, mem_singleton]
    exact hmem

theorem Filling.TooLong.foldl (h : st.TooLong splitter) (splits : List Str)
    : (splits.foldl splitter.fillStep st).TooLong splitter :=
  foldlRecOn splits _ h fun _ h _ _ => h.fillStep

theorem Filling.TooLong.flush (h : st.TooLong splitter)
    : ∃ chunk ∈ st.flush, splitter.chunkSize < chunk.length := by
  have ⟨_, chunk, hmem, hlong⟩ := h
  refine ⟨chunk, ?_, hlong⟩
  unfold Filling.flush
  split
  . next hnil =>
    rw [mem_append, mem_singleton] at hmem
    apply hmem.resolve_right
    rintro rfl
    rw [hnil, length_nil] at hlong
    exact absurd hlong (Nat.not_lt_zero _)
  . exact hmem

theorem tooLong_foldl {splits : List Str} (hs : ∀ s ∈ splits, s.length = 1)
    (hoverlap : splitter.chunkOverlap = splitter.chunkSize) (hseen : seen.length ≤ splitter.chunkSize)
    (hlong : splitter.chunkSize < seen.length + splits.length)
    : (splits.foldl splitter.fillStep ⟨[], seen, seen.length, seen, seen.length⟩).TooLong splitter := by
  induction splits generalizing seen with
  | nil =>
    rw [length_nil] at hlong
    omega
  | cons s splits ih =>
    rw [forall_mem_cons] at hs
    rw [length_cons] at hlong
    have hlength : (seen ++ s).length = seen.length + 1 := by rw [length_append, hs.1]
    rw [foldl_cons, fillStep]
    dsimp only
    rw [if_neg (by omega)]
    split
    . rw [← length_append]
      exact ih hs.2 (by omega) (by omega)
    . apply Filling.TooLong.foldl
      refine ⟨⟨?_, rfl⟩, seen ++ s, mem_append_right _ (mem_singleton_self _), ?_⟩
      . dsimp only
        omega
      . omega

end Fill

section

variable (splitter : FixedRecursiveCharacterTextSplitter)

-- None of the separators occurs in the part, which has more characters than a chunk may have.
def Spills (part : Str) : Prop :=
  (∀ s ∈ splitter.separators.takeWhile (· ≠ []), ¬s <:+: part)
    ∧ splitter.chunkSize < (part.filter (· ≠ '\n')).length

def Overflows (text : Str) : Prop :=
  splitter.chunkOverlap = splitter.chunkSize
    ∧ ∃ part ∈ split splitter.fixedSeparator text, splitter.Spills part

theorem splits_nil (text : Str) : splitter.splits text [] = (text.filter (· ≠ '\n')).map ([·]) := by
  unfold splits
  rw [if_pos rfl, if_neg (nofun)]
  exact filter_solid_chars text

def chosen (part : Str) : Str × List Str :=
  chooseSeparator (fun s => s <:+: part) (splitter.separators.getLastD []) splitter.separators

inductive CutsIntoChars (re : Re) (part : Str) : Str → Prop
  | whole (h : (splitter.chosen part).1 = []) : CutsIntoChars re part part
  | inside {s inner : Str} (hs : s ∈ splitter.splits part (splitter.chosen part).1)
      (hlong : splitter.chunkSize ≤ s.length)
      (h : splitter.CutIntoChars re s (splitter.chosen part).2 inner)
    : CutsIntoChars re part inner

structure RejoinsPart (K : Keeping) (re : Re) (part : Str) : Prop where
  chars : ∀ inner, splitter.CutsIntoChars re part inner → RejoinsChars K inner
  spaces : (splitter.chosen part).1 = [' '] →
    K.Rejoins part ((part.splitOnP (· = ' ')).filter solid).flatten

theorem chunks_eq (text : Str) : splitter.chunks text = split splitter.fixedSeparator text := by
  unfold chunks
  split
  . next h => rw [h, split_nil]
  . rfl

end

section Recursive

variable {K : Keeping} {re : Re} (hsize : 1 ≤ splitter.chunkSize) (hkeep : splitter.keepSeparator = true)
  (hlast : splitter.separators.getLast? = some []) {part : Str}

include hlast

theorem recursiveSplitText_cases (K : Keeping) (re : Re) (part : Str)
    : ((splitter.chosen part).1 = []
        ∧ splitter.recursiveSplitText re part = ((splitter.splits part []).foldl splitter.fillStep {}).flush
        ∧ ∀ s ∈ splitter.separators.takeWhile (· ≠ []), ¬s <:+: part)
      ∨ (1 ≤ splitter.chunkSize → splitter.keepSeparator = true → splitter.RejoinsPart K re part
          → splitter.Chunked K part (splitter.recursiveSplitText re part)) ∧
        ∃ s ∈ splitter.separators.takeWhile (· ≠ []), s <:+: part := by
  unfold recursiveSplitText
  cases chooseSeparator_cases (fun s => s <:+: part) (splitter.separators.getLastD []) hlast with
  | inl hcase =>
    rw [hcase.1]
    exact .inl ⟨congrArg Prod.fst hcase.1, rfl, by simpa using hcase.2⟩
  | inr hcase =>
    have ⟨separator, rest, heq, hrest, hne, hmem, hfound⟩ := hcase
    have hsome : rest ≠ [] := by
      rintro rfl
      cases hrest
    rw [heq]
    refine .inr ⟨?_, separator, hmem, by simpa using hfound⟩
    intro hsize hkeep hrejoins
    have hchosen : splitter.chosen part = (separator, rest) := heq
    have hsplits : Splits K part (splitter.splits part separator) := by
      apply splits_fixed hkeep
      . intro hnil
        exact absurd hnil hne
      . intro hspace
        apply hrejoins.spaces
        rw [hchosen, hspace]
    rw [if_pos hne, joiner, if_pos hkeep]
    apply (Chunked.collect hsplits.ne_nil _).congr fun _ => hsplits.text
    intro s hs hlong
    rw [if_neg hsome]
    apply chunked_splitTextAt hsize hkeep hrest s
    intro inner hinner
    apply hrejoins.chars inner
    refine .inside ?_ hlong ?_
    . rw [hchosen]
      exact hs
    . rw [hchosen]
      exact hinner

include hsize hkeep

theorem chunked_recursiveSplitText (h : splitter.chunkOverlap = splitter.chunkSize → ¬splitter.Spills part)
    (hrejoins : splitter.RejoinsPart K re part)
    : splitter.Chunked K part (splitter.recursiveSplitText re part) := by
  cases recursiveSplitText_cases hlast K re part with
  | inr hcase => exact hcase.1 hsize hkeep hrejoins
  | inl hcase =>
    have hle := splitter.overlap_le
    have hsplits : Splits K part (splitter.splits part []) := by
      apply splits_fixed hkeep
      . intro _
        exact hrejoins.chars part (.whole hcase.1)
      . nofun
    rw [hcase.2.1]
    apply (chunked_fill ?_ ?_).congr fun _ => hsplits.text
    . rw [splits_nil, forall_mem_map]
      intro c _
      rfl
    . rw [splits_nil, length_map]
      by_cases hoverlap : splitter.chunkOverlap = splitter.chunkSize
      . exact .inr (Nat.le_of_not_lt fun hlt => h hoverlap ⟨hcase.2.2, hlt⟩)
      . exact .inl (by omega)

theorem chunked_splitText {text : Str} (h : ¬splitter.Overflows text)
    (hrejoins : ∀ part ∈ split splitter.fixedSeparator text, splitter.chunkSize < part.length →
      splitter.RejoinsPart K re part)
    : splitter.Chunked K (remove splitter.fixedSeparator text) (splitter.splitText re text) := by
  unfold splitText
  rw [chunks_eq, ← flatten_split]
  apply Chunked.flatMap
  intro part hpart
  split
  . next hlong =>
    apply chunked_recursiveSplitText hsize hkeep hlast _ (hrejoins part hpart hlong)
    intro hoverlap hspills
    exact h ⟨hoverlap, part, hpart, hspills⟩
  . next hle => exact .singleton (Nat.le_of_not_lt hle)

end Recursive

theorem not_overflows (hsize : 1 ≤ splitter.chunkSize) (hoverlap : splitter.chunkOverlap = 0) (text : Str)
    : ¬splitter.Overflows text := by
  intro h
  have := h.1
  omega

theorem exists_long_chunk (re : Re) (hlast : splitter.separators.getLast? = some []) {text : Str}
    (h : splitter.Overflows text)
    : ∃ chunk ∈ splitter.splitText re text, splitter.chunkSize < chunk.length := by
  have ⟨hoverlap, part, hpart, hseparators, hlong⟩ := h
  have hfilter : (part.filter (· ≠ '\n')).length ≤ part.length := length_filter_le _ _
  cases recursiveSplitText_cases hlast squeezed re part with
  | inr hcase =>
    have ⟨s, hs, hinfix⟩ := hcase.2
    exact absurd hinfix (hseparators s hs)
  | inl hcase =>
    have hsplits : ∀ s ∈ splitter.splits part [], s.length = 1 := by
      rw [splits_nil, forall_mem_map]
      intro c _
      rfl
    have hcount : splitter.chunkSize < ([] : Str).length + (splitter.splits part []).length := by
      rw [splits_nil, length_map]
      simpa using hlong
    have ⟨chunk, hchunk, hlength⟩ := (tooLong_foldl hsplits hoverlap (Nat.zero_le _) hcount).flush
    refine ⟨chunk, ?_, hlength⟩
    unfold splitText
    rw [chunks_eq, mem_flatMap]
    refine ⟨part, hpart, ?_⟩
    rw [if_pos (by omega), hcase.2.1]
    exact hchunk

end FixedRecursiveCharacterTextSplitter

theorem squeezed_rejoins_of_squeeze (h : squeeze rejoined = squeeze text) : squeezed.Rejoins text rejoined :=
  fun _ hchunks => hchunks.trans h

theorem squeezed_rejoinsChars (part : Str) : RejoinsChars squeezed part := by
  apply squeezed_rejoins_of_squeeze
  rw [squeeze, squeeze, filter_filter]
  apply filter_congr
  intro c _
  by_cases hc : c = '\n'
  . subst hc
    rfl
  . simp [hc]

theorem squeezed_rejoinsPart (splitter : FixedRecursiveCharacterTextSplitter) (re : Re) (part : Str)
    : splitter.RejoinsPart squeezed re part := by
  refine ⟨fun inner _ => squeezed_rejoinsChars inner, fun _ => squeezed_rejoins_of_squeeze ?_⟩
  have hsolid (pieces : List Str) : squeeze (pieces.filter solid).flatten = squeeze pieces.flatten := by
    induction pieces with
    | nil => rfl
    | cons piece pieces ih =>
      cases hpiece : solid piece with
      | true => simp_all [squeeze]
      | false =>
        have hblank : squeeze piece = [] := by
          rw [squeeze, filter_eq_nil_iff]
          simpa using blank_of_not_solid hpiece
        simp_all [squeeze]
  rw [hsolid, flatten_splitOnP, squeeze, squeeze, filter_filter]
  apply filter_congr
  intro c _
  by_cases hc : c = ' '
  . subst hc
    rfl
  . simp [hc]

theorem splitText_length_le_iff (re : Re) (splitter : FixedRecursiveCharacterTextSplitter) (text : Str)
    (hsize : 1 ≤ splitter.chunkSize) (hkeep : splitter.keepSeparator = true)
    (hlast : splitter.separators.getLast? = some [])
    : ((∀ chunk ∈ splitter.toRecursiveCharacterTextSplitter.splitText re text,
          chunk.length ≤ splitter.chunkSize)
        ∧ ∀ chunk ∈ splitter.splitText re text, chunk.length ≤ splitter.chunkSize)
      ↔ ¬splitter.Overflows text := by
  constructor
  . rintro ⟨_, hfixed⟩ hoverflows
    have ⟨chunk, hmem, hlong⟩ := exists_long_chunk re hlast hoverflows
    exact absurd (hfixed chunk hmem) (Nat.not_le_of_lt hlong)
  . intro h
    constructor
    . exact (chunked_splitTextAt hsize hkeep hlast text fun part _ => squeezed_rejoinsChars part).length_le
    . exact (chunked_splitText hsize hkeep hlast h fun part _ _ => squeezed_rejoinsPart splitter re part).length_le

theorem splitText_loses_no_text (re : Re) (splitter : FixedRecursiveCharacterTextSplitter) (text : Str)
    (hsize : 1 ≤ splitter.chunkSize) (hoverlap : splitter.chunkOverlap = 0)
    (hkeep : splitter.keepSeparator = true) (hlast : splitter.separators.getLast? = some [])
    : squeeze (splitter.toRecursiveCharacterTextSplitter.splitText re text).flatten = squeeze text
      ∧ squeeze (splitter.splitText re text).flatten
        = squeeze (remove splitter.fixedSeparator text) := by
  constructor
  . exact (chunked_splitTextAt hsize hkeep hlast text fun part _ => squeezed_rejoinsChars part).text hoverlap
  . exact (chunked_splitText hsize hkeep hlast (not_overflows hsize hoverlap text) fun part _ _ =>
      squeezed_rejoinsPart splitter re part).text hoverlap

-- No two words of the part are joined when the line breaks are taken out.
def Unjoined (part : Str) : Prop :=
  words Python.isSpace (part.filter (· ≠ '\n')) = words Python.isSpace part

def neverFound : Re := ⟨fun _ _ => false, fun _ text => [text]⟩

def lineSplitter : FixedRecursiveCharacterTextSplitter where
  chunkSize := 2
  chunkOverlap := 0
  keepSeparator := true
  overlap_le := Nat.zero_le _
  separators := [['\n'], []]
  fixedSeparator := ['#']

theorem splitText_length_le_lines
    : (∀ chunk ∈ lineSplitter.toRecursiveCharacterTextSplitter.splitText neverFound "abc\nd#e".toList,
          chunk.length ≤ lineSplitter.chunkSize)
        ∧ ∀ chunk ∈ lineSplitter.splitText neverFound "abc\nd#e".toList,
          chunk.length ≤ lineSplitter.chunkSize := by
  rw [splitText_length_le_iff]
  . rintro ⟨hoverlap, _⟩
    cases hoverlap
  . decide
  . rfl
  . rfl

def literal : Re := ⟨fun separator text => separator <:+: text, split⟩

def wordSplitter (separators : List Str) : FixedRecursiveCharacterTextSplitter where
  chunkSize := 12
  chunkOverlap := 0
  keepSeparator := true
  overlap_le := Nat.zero_le _
  separators := separators
  fixedSeparator := ['#']

def charSplitter : FixedRecursiveCharacterTextSplitter where
  chunkSize := 1
  chunkOverlap := 1
  keepSeparator := true
  overlap_le := Nat.le_refl _
  separators := [[]]
  fixedSeparator := []

-- The second chunk is the first one and another character.
theorem not_splitText_length_le
    : charSplitter.splitText neverFound "ab".toList = ["a".toList, "ab".toList]
      ∧ ¬∀ chunk ∈ charSplitter.splitText neverFound "ab".toList,
          chunk.length ≤ charSplitter.chunkSize := by
  exact ⟨rfl, by decide⟩

end Dify
