import Mathlib

/-!
This module contains the binary search of slices, for comparisons that need not agree with the order
of the slice.
-/

namespace BinarySearch

open List

variable {α : Type} (cmp : α → Ordering) (v : List α)

def cmpAt (i : Nat) : Ordering := (v[i]?.map cmp).getD .gt

def narrow (fuel base size : Nat) : Nat :=
  match fuel with
  | 0 => base
  | fuel + 1 =>
    if size ≤ 1 then
      base
    else
      let half := size / 2
      let mid := base + half
      narrow fuel (if cmpAt cmp v mid = .gt then base else mid) (size - half)

def binarySearchBy : Except Nat Nat :=
  if v.length = 0 then
    .error 0
  else
    let base := narrow cmp v v.length 0 v.length
    match cmpAt cmp v base with
    | .eq => .ok base
    | .lt => .error (base + 1)
    | .gt => .error base

variable {cmp v}

theorem cmpAt_of_lt {i : Nat} (h : i < v.length) : cmpAt cmp v i = cmp v[i] := by
  unfold cmpAt
  rw [getElem?_eq_getElem h]
  rfl

structure Between (cmp : α → Ordering) (v : List α) (base size : Nat) : Prop where
  pos : 0 < size
  le : base + size ≤ v.length
  lower : base = 0 ∨ cmpAt cmp v base ≠ .gt
  upper : base + size = v.length ∨ cmpAt cmp v (base + size) = .gt ∨ cmpAt cmp v (base + size - 1) = .gt

theorem Between.step (h : Between cmp v base size) (hsize : ¬size ≤ 1)
    : Between cmp v (if cmpAt cmp v (base + size / 2) = .gt then base else base + size / 2)
      (size - size / 2) := by
  have hle := h.le
  split
  . next hgt =>
    refine ⟨by omega, by omega, h.lower, .inr ?_⟩
    by_cases hodd : base + (size - size / 2) = base + size / 2
    . left
      rw [hodd]
      exact hgt
    . right
      rw [show base + (size - size / 2) - 1 = base + size / 2 by omega]
      exact hgt
  . next hgt =>
    refine ⟨by omega, by omega, .inr hgt, ?_⟩
    rw [show base + size / 2 + (size - size / 2) = base + size by omega]
    exact h.upper

theorem Between.narrow (h : Between cmp v base size) (hfuel : size ≤ fuel)
    : Between cmp v (narrow cmp v fuel base size) 1 := by
  induction fuel generalizing base size with
  | zero =>
    have := h.pos
    omega
  | succ fuel ih =>
    unfold BinarySearch.narrow
    split
    . next hsize =>
      have hpos := h.pos
      rw [show size = 1 by omega] at h
      exact h
    . next hsize =>
      apply ih (h.step hsize)
      have hpos := h.pos
      omega

theorem between_all (cmp : α → Ordering) (h : v.length ≠ 0) : Between cmp v 0 v.length := by
  refine ⟨by omega, by omega, .inl rfl, .inl ?_⟩
  omega

theorem binarySearchBy_ok {i : Nat} (h : binarySearchBy cmp v = .ok i) : ∃ x ∈ v, cmp x = .eq := by
  unfold binarySearchBy at h
  split at h
  . contradiction
  . next hne =>
    have hbetween := (between_all cmp hne).narrow (Nat.le_refl _)
    dsimp only at h
    split at h
    . next heq =>
      have hlt := hbetween.le
      rw [cmpAt_of_lt (by omega)] at heq
      exact ⟨_, getElem_mem _, heq⟩
    . contradiction
    . contradiction

section

variable {i : Nat} (h : binarySearchBy cmp v = .error i)

include h

theorem binarySearchBy_error
    : i ≤ v.length ∧ (0 < i → cmpAt cmp v (i - 1) = .lt) ∧ (i < v.length → cmpAt cmp v i = .gt) := by
  unfold binarySearchBy at h
  split at h
  . cases h
    refine ⟨Nat.zero_le _, by omega, by omega⟩
  . next hne =>
    have hbetween := (between_all cmp hne).narrow (Nat.le_refl _)
    generalize narrow cmp v v.length 0 v.length = base at h hbetween
    have hle := hbetween.le
    dsimp only at h
    split at h
    . contradiction
    . next hlt =>
      cases h
      refine ⟨by omega, fun _ => hlt, ?_⟩
      intro hend
      rcases hbetween.upper with heq | hgt | hgt
      . omega
      . exact hgt
      . rw [show base + 1 - 1 = base by omega, hlt] at hgt
        contradiction
    . next hgt =>
      cases h
      have hzero := hbetween.lower.resolve_right (fun hne => hne hgt)
      refine ⟨by omega, by omega, fun _ => hgt⟩

theorem forall_before {R : α → α → Prop} {P : α → Prop} (hv : v.Pairwise R)
    (hlt : ∀ y ∈ v, cmp y = .lt → P y ∧ ∀ x, R x y → P x)
    : ∀ x ∈ v.take i, P x := by
  have ⟨hle, hat, _⟩ := binarySearchBy_error h
  intro x hx
  obtain ⟨j, hj, rfl⟩ := mem_take_iff_getElem.mp hx
  have hlast := hat (by omega)
  rw [cmpAt_of_lt (by omega)] at hlast
  have ⟨hy, htrans⟩ := hlt _ (getElem_mem _) hlast
  by_cases heq : j = i - 1
  . simpa only [heq] using hy
  . exact htrans _ (pairwise_iff_getElem.mp hv j (i - 1) _ _ (by omega))

theorem forall_after {R : α → α → Prop} {P : α → Prop} (hv : v.Pairwise R)
    (hgt : ∀ y ∈ v, cmp y = .gt → P y ∧ ∀ x, R y x → P x)
    : ∀ x ∈ v.drop i, P x := by
  have ⟨_, _, hat⟩ := binarySearchBy_error h
  intro x hx
  obtain ⟨j, hj, rfl⟩ := mem_drop_iff_getElem.mp hx
  have hfirst := hat (by omega)
  rw [cmpAt_of_lt (by omega)] at hfirst
  have ⟨hy, htrans⟩ := hgt _ (getElem_mem _) hfirst
  cases j with
  | zero => exact hy
  | succ j => exact htrans _ (pairwise_iff_getElem.mp hv i (i + (j + 1)) _ _ (by omega))

end

theorem insertIdx_eq {i : Nat} (h : i ≤ v.length) (x : α) : v.insertIdx i x = v.take i ++ x :: v.drop i := by
  induction v generalizing i with
  | nil => simp [Nat.le_zero.mp h]
  | cons y v ih =>
    cases i with
    | zero => rfl
    | succ i => simp [ih (Nat.le_of_succ_le_succ h)]

theorem mem_insertAt (i : Nat) : x ∈ v.take i ++ y :: v.drop i ↔ x = y ∨ x ∈ v := by
  rw [mem_append, mem_cons, or_left_comm, ← mem_append, take_append_drop]

theorem pairwise_insertAt {R : α → α → Prop} {i : Nat} (hv : v.Pairwise R)
    (hbefore : ∀ x ∈ v.take i, R x y) (hafter : ∀ x ∈ v.drop i, R y x)
    : (v.take i ++ y :: v.drop i).Pairwise R := by
  rw [← take_append_drop i v, pairwise_append] at hv
  rw [pairwise_append, pairwise_cons]
  refine ⟨hv.1, ⟨hafter, hv.2.1⟩, ?_⟩
  intro x hx
  rw [forall_mem_cons]
  exact ⟨hbefore x hx, hv.2.2 x hx⟩

theorem isOk_binarySearchBy_iff [LinearOrder α] (hv : v.Pairwise (· ≤ ·)) (x : α)
    : (binarySearchBy (compare · x) v).isOk = true ↔ x ∈ v := by
  cases h : binarySearchBy (compare · x) v with
  | ok i =>
    obtain ⟨y, hy, heq⟩ := binarySearchBy_ok h
    rw [compare_eq_iff_eq] at heq
    rw [heq] at hy
    exact ⟨fun _ => hy, fun _ => rfl⟩
  | error i =>
    constructor
    . intro hok
      contradiction
    . intro hx
      have hlt : ∀ y ∈ v.take i, y < x := by
        refine forall_before h hv fun y _ hy => ?_
        rw [compare_lt_iff_lt] at hy
        exact ⟨hy, fun _ hle => lt_of_le_of_lt hle hy⟩
      have hgt : ∀ y ∈ v.drop i, x < y := by
        refine forall_after h hv fun y _ hy => ?_
        rw [compare_gt_iff_gt] at hy
        exact ⟨hy, fun _ hle => lt_of_lt_of_le hy hle⟩
      rw [← take_append_drop i v] at hx
      rcases mem_append.mp hx with hx | hx
      . exact absurd (hlt x hx) (lt_irrefl x)
      . exact absurd (hgt x hx) (lt_irrefl x)

theorem mem_destutter'_ne [DecidableRel fun a b : α => a ≠ b]
    : x ∈ v.destutter' (· ≠ ·) y ↔ x = y ∨ x ∈ v := by
  induction v generalizing y with
  | nil => simp
  | cons z v ih =>
    rw [mem_cons]
    by_cases hne : y ≠ z
    . rw [destutter'_cons_pos v hne, mem_cons, ih]
    . rw [destutter'_cons_neg v hne, ih, not_not.mp hne, or_self_left]

theorem mem_destutter_ne [DecidableRel fun a b : α => a ≠ b] : x ∈ v.destutter (· ≠ ·) ↔ x ∈ v := by
  cases v with
  | nil => rfl
  | cons y v => rw [destutter_cons', mem_destutter'_ne, mem_cons]

theorem isOk_search_sorted_iff [LinearOrder α] [DecidableRel fun a b : α => a ≠ b] (v : List α) (x : α)
    : (binarySearchBy (compare · x) ((v.insertionSort (· ≤ ·)).destutter (· ≠ ·))).isOk = true ↔ x ∈ v := by
  rw [isOk_binarySearchBy_iff, mem_destutter_ne, mem_insertionSort]
  apply List.Pairwise.sublist (destutter_sublist _ _)
  exact pairwise_insertionSort (· ≤ ·) v

end BinarySearch
