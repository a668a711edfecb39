import Mathlib

/-!
This module contains arrays with gaps, as lists in which the default element stands for one that was
never written.
-/

namespace SparseArray

open List

variable {α : Type} [Inhabited α]

def get (xs : List α) (i : Nat) : α := xs[i]?.getD default

def set (xs : List α) (i : Nat) (v : α) : List α :=
  if i < xs.length then
    xs.set i v
  else
    xs ++ replicate (i - xs.length) default ++ [v]

variable {xs : List α}

theorem get_eq_default_of_le (h : xs.length ≤ i) : get xs i = default := by
  unfold get
  rw [getElem?_eq_none h]
  rfl

@[simp]
theorem get_nil (i : Nat) : get ([] : List α) i = default := by
  apply get_eq_default_of_le
  simp

theorem get_of_prefix (h : xs ++ [v] <+: ys) : get ys xs.length = v := by
  have ⟨zs, heq⟩ := h
  unfold get
  rw [← heq, append_assoc, getElem?_append_right (Nat.le_refl _)]
  simp

theorem length_set (xs : List α) (i : Nat) (v : α) : (set xs i v).length = max xs.length (i + 1) := by
  unfold set
  split
  . rw [List.length_set]
    omega
  . simp
    omega

theorem set_of_lt (v : α) (h : i < xs.length) : set xs i v = xs.set i v := by
  unfold set
  rw [if_pos h]

theorem get_set (xs : List α) (i j : Nat) (v : α)
    : get (set xs i v) j = if i = j then v else get xs j := by
  unfold set
  split
  . next hlt =>
    unfold get
    rw [getElem?_set]
    split
    . simp
    . rfl
  . next hge =>
    unfold get
    split
    . next heq =>
      subst heq
      rw [getElem?_append_right]
      . have : i - (xs.length + (i - xs.length)) = 0 := by omega
        simp [this]
      . simp
        omega
    . next hne =>
      cases Nat.lt_or_ge j xs.length with
      | inl hj =>
        rw [append_assoc, getElem?_append_left hj]
      | inr hj =>
        have hnone : xs[j]? = none := getElem?_eq_none hj
        rw [hnone]
        cases Nat.lt_or_ge j i with
        | inl hji =>
          rw [getElem?_append_left]
          . rw [getElem?_append_right hj]
            rw [getElem?_replicate]
            split <;> rfl
          . simp
            omega
        | inr hij =>
          rw [getElem?_eq_none]
          simp
          omega

theorem set_set (xs : List α) (i : Nat) (v w : α) : set (set xs i v) i w = set xs i w := by
  have hlt : i < (set xs i v).length := by
    rw [length_set]
    omega
  rw [set_of_lt w hlt]
  unfold set
  split
  . apply List.set_set
  . rw [List.set_append_right]
    . have : i - (xs.length + (i - xs.length)) = 0 := by omega
      simp [this]
    . simp
      omega

end SparseArray
