import Mathlib

/-!
This module contains the search for a needle in a text that arrives in pieces.
-/

namespace Text

open List

variable {α : Type} [DecidableEq α]

def find? (needle : List α) (s : List α) : Option Nat :=
  match s with
  | [] => if needle = [] then some 0 else none
  | c :: cs => if needle <+: c :: cs then some 0 else (find? needle cs).map (· + 1)

variable {needle s : List α} {i : Nat}

theorem find?_eq_none_iff : find? needle s = none ↔ ∀ j, ¬needle <+: s.drop j := by
  induction s with
  | nil => simp [find?]
  | cons c cs ih =>
    rw [find?]
    split
    next h =>
      simp only [reduceCtorEq, false_iff, not_forall, not_not]
      exists 0
    next h =>
      rw [Option.map_eq_none_iff, ih]
      constructor
      . intro hno j
        cases j with
        | zero => exact h
        | succ j => exact hno j
      . intro hno j
        exact hno (j + 1)

theorem find?_eq_some_iff
    : find? needle s = some i ↔ needle <+: s.drop i ∧ ∀ j < i, ¬needle <+: s.drop j := by
  induction s generalizing i with
  | nil =>
    rw [find?]
    split
    next h =>
      subst h
      simp only [Option.some.injEq, nil_prefix, not_true_eq_false, true_and]
      constructor
      . intro h j hj
        omega
      . intro h
        by_contra hi
        exact h 0 (by omega)
    next h => simp [h]
  | cons c cs ih =>
    rw [find?]
    split
    next h =>
      rw [Option.some.injEq]
      constructor
      . intro hi
        subst hi
        simp [h]
      . intro ⟨_, hno⟩
        cases i with
        | zero => rfl
        | succ i => exact absurd h (hno 0 (by omega))
    next h =>
      rw [Option.map_eq_some_iff]
      constructor
      . intro ⟨k, hk, hi⟩
        subst hi
        have ⟨hat, hno⟩ := ih.mp hk
        apply And.intro hat
        intro j hj
        cases j with
        | zero => exact h
        | succ j => exact hno j (by omega)
      . intro ⟨hat, hno⟩
        cases i with
        | zero => exact absurd hat h
        | succ i =>
          exists i
          apply And.intro _ rfl
          rw [ih]
          apply And.intro hat
          intro j hj
          exact hno (j + 1) (by omega)

theorem length_le_of_find? (hne : needle ≠ []) (h : find? needle s = some i)
    : i + needle.length ≤ s.length := by
  have hat := (find?_eq_some_iff.mp h).1
  have hle := hat.length_le
  have := length_pos_of_ne_nil hne
  rw [length_drop] at hle
  omega

section

omit [DecidableEq α]

theorem isPrefix_drop_append (h : needle <+: s.drop i) : needle <+: (s ++ t).drop i := by
  rw [drop_append]
  exact h.trans (prefix_append _ _)

theorem isPrefix_of_isPrefix_drop_append (hi : i ≤ s.length) (h : needle <+: (s ++ t).drop i)
    : needle <+: s.drop i ∨ (s.drop i <+: needle ∧ s.length < i + needle.length) := by
  rw [drop_append_of_le_length hi] at h
  cases prefix_or_prefix_of_prefix h (prefix_append _ _) with
  | inl hat => exact .inl hat
  | inr hpre =>
    by_cases hlen : s.length < i + needle.length
    . exact .inr ⟨hpre, hlen⟩
    . have heq : s.drop i = needle := by
        apply hpre.eq_of_length_le
        rw [length_drop]
        omega
      rw [heq]
      exact .inl prefix_rfl

end

theorem find?_append_of_some (hne : needle ≠ []) (h : find? needle s = some i) (t : List α)
    : find? needle (s ++ t) = some i := by
  have hlen := length_le_of_find? hne h
  have ⟨hat, hno⟩ := find?_eq_some_iff.mp h
  rw [find?_eq_some_iff]
  apply And.intro (isPrefix_drop_append hat)
  intro j hj hpre
  cases isPrefix_of_isPrefix_drop_append (by omega) hpre with
  | inl h => exact hno j hj h
  | inr h =>
    omega

theorem find?_drop (h : ∀ j < k, ¬needle <+: s.drop j)
    : find? needle s = (find? needle (s.drop k)).map (k + ·) := by
  cases hk : find? needle (s.drop k) with
  | none =>
    rw [Option.map_none, find?_eq_none_iff]
    rw [find?_eq_none_iff] at hk
    intro j
    by_cases hj : j < k
    . exact h j hj
    . have := hk (j - k)
      rw [drop_drop, show k + (j - k) = j by omega] at this
      exact this
  | some i =>
    rw [Option.map_some, find?_eq_some_iff]
    rw [find?_eq_some_iff] at hk
    rw [drop_drop] at hk
    apply And.intro hk.1
    intro j hj
    by_cases hjk : j < k
    . exact h j hjk
    . have := hk.2 (j - k) (by omega)
      rw [drop_drop, show k + (j - k) = j by omega] at this
      exact this

def overlap (s needle : List α) (k : Nat) : Nat :=
  match k with
  | 0 => 0
  | k + 1 => if needle.take (k + 1) <:+ s then k + 1 else overlap s needle k

def longestSuffixPrefixLen (s needle : List α) : Nat :=
  overlap s needle (min s.length (needle.length - 1))

theorem not_isSuffix_of_overlap_lt (hlt : overlap s needle k < j) (hle : j ≤ k)
    : ¬needle.take j <:+ s := by
  induction k with
  | zero => omega
  | succ k ih =>
    rw [overlap] at hlt
    split at hlt
    next => omega
    next h =>
      by_cases hj : j = k + 1
      . rw [hj]
        exact h
      . exact ih hlt (by omega)

theorem not_isPrefix_drop_append (hno : ∀ j, ¬needle <+: s.drop j)
    (hi : i + longestSuffixPrefixLen s needle < s.length) (t : List α)
    : ¬needle <+: (s ++ t).drop i := by
  intro h
  cases isPrefix_of_isPrefix_drop_append (by omega) h with
  | inl h => exact hno i h
  | inr h =>
    have ⟨hpre, hlen⟩ := h
    rw [prefix_iff_eq_take, length_drop] at hpre
    have hsuf := drop_suffix i s
    rw [hpre] at hsuf
    unfold longestSuffixPrefixLen at hi
    apply not_isSuffix_of_overlap_lt (k := min s.length (needle.length - 1)) _ _ hsuf
    . omega
    . omega

end Text
