import AppSuite.Text.Whitespace

/-!
This module contains how a text falls into lines.
-/

namespace Text

open List

def terminated (s : List Char) : List (List Char) := (s.splitOn '\n').dropLast

def unterminated (s : List Char) : List Char := (s.splitOn '\n').getLastD []

def chopCr (line : List Char) : List Char :=
  if line.getLast? = some '\r' then line.dropLast else line

def lines (s : List Char) : List (List Char) :=
  (terminated s).map chopCr ++ if unterminated s = [] then [] else [unterminated s]

variable {s t : List Char}

theorem splitOn_eq : s.splitOn '\n' = terminated s ++ [unterminated s] := by
  unfold terminated unterminated
  cases eq_nil_or_concat (s.splitOn '\n') with
  | inl h => cases splitOn_ne_nil '\n' s h
  | inr h =>
    have ⟨init, last, h⟩ := h
    rw [h]
    simp

theorem terminated_of_not_mem (h : '\n' ∉ s) : terminated s = [] := by
  unfold terminated
  rw [splitOn_eq_singleton h]
  rfl

theorem unterminated_of_not_mem (h : '\n' ∉ s) : unterminated s = s := by
  unfold unterminated
  rw [splitOn_eq_singleton h]
  rfl

theorem splitOn_append_newline
    : terminated (s ++ '\n' :: t) ++ [unterminated (s ++ '\n' :: t)]
      = (terminated s ++ unterminated s :: terminated t) ++ [unterminated t] := by
  rw [← splitOn_eq, splitOn_append_cons_self, splitOn_eq, splitOn_eq]
  simp

theorem terminated_append_newline
    : terminated (s ++ '\n' :: t) = terminated s ++ unterminated s :: terminated t :=
  (append_inj' splitOn_append_newline rfl).1

theorem unterminated_append_newline : unterminated (s ++ '\n' :: t) = unterminated t := by
  have h := (append_inj' (splitOn_append_newline (s := s) (t := t)) rfl).2
  simpa using h

@[elab_as_elim]
theorem line_induction {motive : List Char → Prop} (s : List Char)
    (last : ∀ s, '\n' ∉ s → motive s)
    (line : ∀ first rest, '\n' ∉ first → motive rest → motive (first ++ '\n' :: rest))
    : motive s := by
  by_cases hs : '\n' ∈ s
  . have ⟨first, rest, hsplit, hfirst⟩ := eq_append_cons_of_mem hs
    rw [hsplit]
    exact line first rest hfirst (line_induction rest last line)
  . exact last s hs
termination_by s.length
decreasing_by simp [hsplit]; omega

theorem chopCr_eq_self (h : s.getLast? ≠ some '\r') : chopCr s = s :=
  if_neg h

theorem exists_append_chopCr (s : List Char) : ∃ w, s = chopCr s ++ w ∧ ∀ c ∈ w, c = '\r' := by
  unfold chopCr
  split
  . next h =>
    have ⟨init, hinit⟩ := getLast?_eq_some_iff.mp h
    exact ⟨['\r'], by simp [hinit], by simp⟩
  . exact ⟨[], by simp, by simp⟩

section

variable {blank : Char → Bool} (h : blank '\r' = true)

include h

theorem exists_append_blank (s : List Char) : ∃ w, s = chopCr s ++ w ∧ ∀ c ∈ w, blank c = true := by
  have ⟨w, hs, hw⟩ := exists_append_chopCr s
  refine ⟨w, hs, ?_⟩
  intro c hc
  rw [hw c hc]
  exact h

theorem trim_chopCr : trim blank (chopCr s) = trim blank s := by
  have ⟨w, hs, hblank⟩ := exists_append_blank h s
  rw [← trim_append_blank hblank, ← hs]

theorem trimEnd_chopCr : trimEnd blank (chopCr s) = trimEnd blank s := by
  have ⟨w, hs, hblank⟩ := exists_append_blank h s
  rw [← trimEnd_append_blank hblank, ← hs]

end

def unlines (lines : List (List Char)) : List Char := lines.flatMap (· ++ ['\n'])

theorem unlines_cons {line : List Char} {lines : List (List Char)}
    : unlines (line :: lines) ++ s = line ++ '\n' :: (unlines lines ++ s) := by
  simp [unlines]

theorem intercalate_append_newline (line : List Char) (lines : List (List Char))
    : ['\n'].intercalate (line :: lines) ++ ['\n'] = unlines (line :: lines) := by
  induction lines generalizing line with
  | nil => simp [unlines]
  | cons next lines ih =>
    rw [intercalate_cons_cons, List.append_assoc, ih]
    simp [unlines]

theorem terminated_unlines_append {lines : List (List Char)} (h : ∀ line ∈ lines, '\n' ∉ line)
    : terminated (unlines lines ++ s) = lines ++ terminated s := by
  induction lines with
  | nil => rfl
  | cons line lines ih =>
    rw [forall_mem_cons] at h
    rw [unlines_cons, terminated_append_newline, terminated_of_not_mem h.1,
      unterminated_of_not_mem h.1, ih h.2]
    rfl

theorem unterminated_unlines_append (lines : List (List Char))
    : unterminated (unlines lines ++ s) = unterminated s := by
  induction lines with
  | nil => rfl
  | cons line lines ih => rw [unlines_cons, unterminated_append_newline, ih]

theorem unlines_terminated (s : List Char) : unlines (terminated s) ++ unterminated s = s := by
  induction s using line_induction with
  | last s hs =>
    rw [terminated_of_not_mem hs, unterminated_of_not_mem hs]
    rfl
  | line first rest hfirst ih =>
    rw [terminated_append_newline, unterminated_append_newline, terminated_of_not_mem hfirst,
      unterminated_of_not_mem hfirst, nil_append, unlines_cons, ih]

theorem not_mem_of_mem_terminated (s : List Char) (h : line ∈ terminated s)
    : '\n' ∉ line := by
  induction s using line_induction with
  | last s hs =>
    rw [terminated_of_not_mem hs] at h
    cases h
  | line first rest hfirst ih =>
    rw [terminated_append_newline, terminated_of_not_mem hfirst, unterminated_of_not_mem hfirst,
      nil_append, mem_cons] at h
    cases h with
    | inl h =>
      rw [h]
      exact hfirst
    | inr h => exact ih h

theorem not_mem_unterminated (s : List Char) : '\n' ∉ unterminated s := by
  induction s using line_induction with
  | last s hs =>
    rw [unterminated_of_not_mem hs]
    exact hs
  | line first rest hfirst ih =>
    rw [unterminated_append_newline]
    exact ih

theorem mem_of_mem_terminated (h : line ∈ terminated s) (hc : c ∈ line)
    : c ∈ s := by
  rw [← unlines_terminated s, unlines, mem_append, mem_flatMap]
  exact .inl ⟨line, h, by simp [hc]⟩

theorem mem_of_mem_unterminated (hc : c ∈ unterminated s) : c ∈ s := by
  rw [← unlines_terminated s, mem_append]
  exact .inr hc

theorem mem_of_mem_chopCr (h : c ∈ chopCr s) : c ∈ s := by
  have ⟨w, hs, _⟩ := exists_append_chopCr s
  rw [hs, mem_append]
  exact .inl h

theorem getLast?_of_unterminated_eq_nil (h : unterminated s = []) (hs : s ≠ [])
    : s.getLast? = some '\n' := by
  have hunlines := unlines_terminated s
  rw [h, append_nil] at hunlines
  rw [← hunlines]
  cases hlines : terminated s using List.reverseRecOn with
  | nil =>
    rw [hlines] at hunlines
    exact (hs hunlines.symm).elim
  | append_singleton init last => simp [unlines]

def splitInclusive (s : List Char) : List (List Char) :=
  (terminated s).map (· ++ ['\n']) ++ if unterminated s = [] then [] else [unterminated s]

theorem splitInclusive_nil : splitInclusive [] = [] := rfl

theorem splitInclusive_of_not_mem (h : '\n' ∉ s) (hne : s ≠ []) : splitInclusive s = [s] := by
  simp [splitInclusive, terminated_of_not_mem h, unterminated_of_not_mem h, hne]

theorem splitInclusive_append_newline (h : '\n' ∉ s)
    : splitInclusive (s ++ '\n' :: t) = (s ++ ['\n']) :: splitInclusive t := by
  simp [splitInclusive, terminated_append_newline, unterminated_append_newline,
    terminated_of_not_mem h, unterminated_of_not_mem h]

theorem ne_nil_of_mem_splitInclusive (h : line ∈ splitInclusive s) : line ≠ [] := by
  unfold splitInclusive at h
  rw [mem_append, mem_map] at h
  cases h with
  | inl h =>
    have ⟨_, _, hline⟩ := h
    rw [← hline]
    simp
  | inr h =>
    split at h
    next => cases h
    next hne =>
      rw [mem_singleton] at h
      rw [h]
      exact hne

section

variable {init : List (List Char)} (h : ∀ line ∈ init, '\n' ∉ line ∧ line.getLast? ≠ some '\r')

include h

theorem map_chopCr : init.map chopCr = init := by
  rw [map_congr_left fun line hline => chopCr_eq_self (h line hline).2]
  simp

theorem lines_unlines : lines (unlines init) = init := by
  have hterminated := terminated_unlines_append (s := []) fun line hline => (h line hline).1
  have hunterminated := unterminated_unlines_append (s := []) init
  rw [append_nil] at hterminated hunterminated
  unfold lines
  rw [hterminated, hunterminated, terminated_of_not_mem not_mem_nil, append_nil, map_chopCr h]
  simp [unterminated]

end

theorem lines_unlines_append {init : List (List Char)} {last : List Char}
    (hinit : ∀ line ∈ init, '\n' ∉ line ∧ line.getLast? ≠ some '\r') (hlast : '\n' ∉ last)
    (hne : last ≠ [])
    : lines (unlines init ++ last) = init ++ [last] := by
  unfold lines
  rw [terminated_unlines_append fun line hline => (hinit line hline).1, unterminated_unlines_append,
    terminated_of_not_mem hlast, unterminated_of_not_mem hlast, append_nil, map_chopCr hinit,
    if_neg hne]

end Text
