import Mathlib

/-!
This module contains how a text falls into words, and what becomes of the words of two texts that
are joined.
-/

namespace Text

open List

variable (blank : Char → Bool) (s : List Char)

def words : List (List Char) := (s.splitOnP blank).filter (· ≠ [])

def lastWord : List Char := s.rtakeWhile (!blank ·)

def beforeLastWord : List Char := s.rdropWhile (!blank ·)

def firstWord : List Char := s.takeWhile (!blank ·)

def afterFirstWord : List Char := s.dropWhile (!blank ·)

variable {blank} {s t w : List Char} {c : Char}

theorem words_append_blank_cons (h : blank c = true)
    : words blank (s ++ c :: t) = words blank s ++ words blank t := by
  unfold words
  rw [splitOnP_append_cons s t h, filter_append]

theorem words_of_not_blank (h : ∀ c ∈ w, blank c = false)
    : words blank w = if w = [] then [] else [w] := by
  unfold words
  rw [splitOnP_eq_singleton h]
  split <;> simp_all

theorem words_append (h : s = [] ∨ ∃ front c, s = front ++ [c] ∧ blank c = true)
    : words blank (s ++ t) = words blank s ++ words blank t := by
  cases h with
  | inl h =>
    rw [h]
    rfl
  | inr h =>
    have ⟨front, c, hs, hc⟩ := h
    have hempty : words blank [] = [] := rfl
    rw [hs, List.append_assoc, singleton_append, words_append_blank_cons hc,
      words_append_blank_cons hc, hempty, append_nil]

theorem words_append' (h : t = [] ∨ ∃ c rest, t = c :: rest ∧ blank c = true)
    : words blank (s ++ t) = words blank s ++ words blank t := by
  cases h with
  | inl h =>
    have hempty : words blank [] = [] := rfl
    rw [h, append_nil, hempty, append_nil]
  | inr h =>
    have ⟨c, rest, ht, hc⟩ := h
    have hrest := words_append_blank_cons (s := []) (t := rest) hc
    have hempty : words blank [] = [] := rfl
    rw [nil_append, hempty, nil_append] at hrest
    rw [ht, words_append_blank_cons hc, hrest]

theorem words_of_blank (h : ∀ c ∈ w, blank c = true) : words blank w = [] := by
  induction w with
  | nil => rfl
  | cons c w ih =>
    rw [forall_mem_cons] at h
    have hcons := words_append_blank_cons (s := []) (t := w) h.1
    rw [nil_append] at hcons
    rw [hcons, ih h.2]
    rfl

theorem words_append_of_blank (h : ∀ c ∈ w, blank c = true) : words blank (s ++ w) = words blank s := by
  have hcases : w = [] ∨ ∃ c rest, w = c :: rest ∧ blank c = true := by
    cases w with
    | nil => exact .inl rfl
    | cons c rest => exact .inr ⟨c, rest, rfl, h c mem_cons_self⟩
  rw [words_append' hcases, words_of_blank h, append_nil]

theorem words_of_blank_append (h : ∀ c ∈ w, blank c = true) : words blank (w ++ s) = words blank s := by
  have hcases : w = [] ∨ ∃ front c, w = front ++ [c] ∧ blank c = true := by
    cases eq_nil_or_concat' w with
    | inl hw => exact .inl hw
    | inr hw =>
      have ⟨front, c, hw⟩ := hw
      exact .inr ⟨front, c, hw, h c (by simp [hw])⟩
  rw [words_append hcases, words_of_blank h, nil_append]

theorem not_blank_of_mem_lastWord (h : c ∈ lastWord blank s) : blank c = false := by
  have := mem_rtakeWhile_imp h
  simpa using this

theorem not_blank_of_mem_firstWord (h : c ∈ firstWord blank s) : blank c = false := by
  have := mem_takeWhile_imp h
  simpa using this

theorem beforeLastWord_append_lastWord : beforeLastWord blank s ++ lastWord blank s = s :=
  rdropWhile_append_rtakeWhile

theorem firstWord_append_afterFirstWord : firstWord blank s ++ afterFirstWord blank s = s :=
  takeWhile_append_dropWhile

theorem beforeLastWord_cases
    : beforeLastWord blank s = []
      ∨ ∃ front c, beforeLastWord blank s = front ++ [c] ∧ blank c = true := by
  cases eq_nil_or_concat' (beforeLastWord blank s) with
  | inl h => exact .inl h
  | inr h =>
    have ⟨front, c, h⟩ := h
    refine .inr ⟨front, c, h, ?_⟩
    have hne : beforeLastWord blank s ≠ [] := by simp [h]
    have hlast := rdropWhile_last_not (!blank ·) s hne
    have hc : (beforeLastWord blank s).getLast hne = c := by simp [h]
    rw [Bool.not_eq_true, Bool.not_eq_false'] at hlast
    rw [← hc]
    exact hlast

theorem afterFirstWord_cases
    : afterFirstWord blank s = []
      ∨ ∃ c rest, afterFirstWord blank s = c :: rest ∧ blank c = true := by
  cases h : afterFirstWord blank s with
  | nil => exact .inl rfl
  | cons c rest =>
    refine .inr ⟨c, rest, rfl, ?_⟩
    have := head?_dropWhile_not (!blank ·) s
    rw [show s.dropWhile (!blank ·) = c :: rest from h] at this
    simpa using this

theorem words_eq_beforeLastWord (blank : Char → Bool) (s : List Char)
    : words blank s
      = words blank (beforeLastWord blank s)
        ++ if lastWord blank s = [] then [] else [lastWord blank s] := by
  rw [← words_of_not_blank fun c => not_blank_of_mem_lastWord, ← words_append beforeLastWord_cases,
    beforeLastWord_append_lastWord]

theorem words_eq_firstWord (blank : Char → Bool) (s : List Char)
    : words blank s
      = (if firstWord blank s = [] then [] else [firstWord blank s])
        ++ words blank (afterFirstWord blank s) := by
  rw [← words_of_not_blank fun c => not_blank_of_mem_firstWord, ← words_append' afterFirstWord_cases,
    firstWord_append_afterFirstWord]

theorem words_join (hw : ∀ c ∈ w, blank c = false) (hne : w ≠ [])
    : words blank (s ++ (w ++ t))
      = words blank (beforeLastWord blank s)
        ++ (lastWord blank s ++ w ++ firstWord blank t) :: words blank (afterFirstWord blank t) := by
  have hjoined : ∀ c ∈ lastWord blank s ++ w ++ firstWord blank t, blank c = false := by
    intro c hc
    rw [mem_append, mem_append] at hc
    obtain (hc | hc) | hc := hc
    . exact not_blank_of_mem_lastWord hc
    . exact hw c hc
    . exact not_blank_of_mem_firstWord hc
  have hsplit
      : s ++ (w ++ t)
          = beforeLastWord blank s
            ++ ((lastWord blank s ++ w ++ firstWord blank t) ++ afterFirstWord blank t) := by
    simp only [List.append_assoc, firstWord_append_afterFirstWord]
    rw [← List.append_assoc (beforeLastWord blank s), beforeLastWord_append_lastWord]
  rw [hsplit, words_append beforeLastWord_cases, words_append' afterFirstWord_cases,
    words_of_not_blank hjoined, if_neg (by simp [hne])]
  rfl

theorem flatten_splitOnP (p : Char → Bool) (s : List Char) : (s.splitOnP p).flatten = s.filter (!p ·) := by
  induction s with
  | nil => rfl
  | cons c s ih =>
    rw [splitOnP_cons_eq_if_modifyHead]
    cases hsplit : s.splitOnP p with
    | nil => exact absurd hsplit (splitOnP_ne_nil p s)
    | cons piece pieces =>
      rw [hsplit] at ih
      by_cases hc : p c
      . simp [hc, ← ih]
      . simp [hc, ← ih]

theorem flatten_words (blank : Char → Bool) (s : List Char)
    : (words blank s).flatten = s.filter (!blank ·) := by
  rw [words, ← flatten_splitOnP, flatten_filter_ne_nil]

-- Every word is there once and in its place, whole or in several pieces.
def Cuts (pieces words : List (List Char)) : Prop :=
  ∃ groups : List (List (List Char)), groups.flatten = pieces ∧ groups.map flatten = words

namespace Cuts

variable {pieces pieces' ws ws' : List (List Char)}

theorem refl (ws : List (List Char)) : Cuts ws ws := by
  refine ⟨ws.map ([·]), ?_, ?_⟩
  . rw [← flatMap_def, flatMap_singleton']
  . rw [map_map]
    exact map_id'' (fun w => flatten_singleton) ws

theorem append (h : Cuts pieces ws) (h' : Cuts pieces' ws') : Cuts (pieces ++ pieces') (ws ++ ws') := by
  obtain ⟨groups, rfl, rfl⟩ := h
  obtain ⟨groups', rfl, rfl⟩ := h'
  exact ⟨groups ++ groups', flatten_append, map_append⟩

theorem trans (h : Cuts pieces ws) (h' : Cuts ws ws') : Cuts pieces ws' := by
  obtain ⟨groups, rfl, hgroups⟩ := h
  obtain ⟨outer, rfl, rfl⟩ := h'
  induction outer generalizing groups with
  | nil =>
    rw [flatten_nil, map_eq_nil_iff] at hgroups
    rw [hgroups]
    exact refl []
  | cons ws outer ih =>
    rw [flatten_cons, map_eq_append_iff] at hgroups
    obtain ⟨front, rest, rfl, rfl, hrest⟩ := hgroups
    have hfront : Cuts front.flatten [(front.map flatten).flatten] :=
      ⟨[front.flatten], flatten_singleton, by rw [map_singleton, flatten_flatten]⟩
    rw [flatten_append]
    exact hfront.append (ih rest hrest)

theorem length_le (h : Cuts pieces ws) (hne : ∀ w ∈ ws, w ≠ []) : ws.length ≤ pieces.length := by
  obtain ⟨groups, rfl, rfl⟩ := h
  induction groups with
  | nil => exact Nat.le_refl 0
  | cons group groups ih =>
    rw [map_cons, forall_mem_cons] at hne
    have hpos : 0 < group.length := by
      rw [length_pos_iff]
      rintro rfl
      exact hne.1 rfl
    have := ih hne.2
    rw [map_cons, length_cons, flatten_cons, length_append]
    omega

theorem words_append : Cuts (words blank s ++ words blank t) (words blank (s ++ t)) := by
  have hjoined : ∀ c ∈ lastWord blank s ++ firstWord blank t, blank c = false := by
    intro c hc
    rw [mem_append] at hc
    exact hc.elim not_blank_of_mem_lastWord not_blank_of_mem_firstWord
  have hsplit : s ++ t
      = beforeLastWord blank s ++ ((lastWord blank s ++ firstWord blank t) ++ afterFirstWord blank t) := by
    simp only [List.append_assoc, firstWord_append_afterFirstWord]
    rw [← List.append_assoc, beforeLastWord_append_lastWord]
  rw [hsplit, Text.words_append beforeLastWord_cases, words_append' afterFirstWord_cases,
    words_of_not_blank hjoined, words_eq_beforeLastWord blank s, words_eq_firstWord blank t,
    List.append_assoc, ← List.append_assoc (if lastWord blank s = [] then _ else _)]
  refine (refl _).append (append ?_ (refl _))
  by_cases hlast : lastWord blank s = []
  . simpa [hlast] using refl _
  . by_cases hfirst : firstWord blank t = []
    . simpa [hlast, hfirst] using refl _
    . refine ⟨[[lastWord blank s, firstWord blank t]], ?_, ?_⟩ <;> simp [hlast, hfirst]

end Cuts

end Text
