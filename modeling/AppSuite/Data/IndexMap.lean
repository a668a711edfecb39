import Mathlib

/-!
This module contains maps whose keys are array indices, listed in ascending order.
-/

structure IndexMap (ν : Type) where
  entries : List (Nat × ν)
  ascending : entries.Pairwise fun a b => a.1 < b.1

namespace IndexMap

open List

variable {ν : Type}

instance [DecidableEq ν] : DecidableEq (IndexMap ν) :=
  fun m n => decidable_of_iff (m.entries = n.entries) <| by
    cases m
    cases n
    simp

def empty : IndexMap ν := ⟨[], Pairwise.nil⟩

def get? (m : IndexMap ν) (k : Nat) : Option ν := (m.entries.find? fun e => e.1 = k).map Prod.snd

def keys (m : IndexMap ν) : List Nat := m.entries.map Prod.fst

def size (m : IndexMap ν) : Nat := m.entries.length

def delete (m : IndexMap ν) (k : Nat) : IndexMap ν :=
  ⟨m.entries.filter fun e => e.1 ≠ k, m.ascending.filter _⟩

def setEntry (k : Nat) (v : ν) : List (Nat × ν) → List (Nat × ν)
  | [] => [(k, v)]
  | e :: es =>
    if k < e.1 then
      (k, v) :: e :: es
    else if k = e.1 then
      (k, v) :: es
    else
      e :: setEntry k v es

variable {k : Nat} {v : ν} {es : List (Nat × ν)} {m : IndexMap ν}

theorem mem_setEntry (h : x ∈ setEntry k v es) : x = (k, v) ∨ x ∈ es := by
  induction es with
  | nil =>
    simp [setEntry] at h
    exact Or.inl h
  | cons e es ih =>
    unfold setEntry at h
    split at h
    . simpa using h
    . split at h
      . simp at h
        tauto
      . rw [mem_cons] at h
        cases h with
        | inl heq => simp [heq]
        | inr hmem =>
          tauto

theorem setEntry_ascending (k : Nat) (v : ν) (h : es.Pairwise fun a b => a.1 < b.1)
    : (setEntry k v es).Pairwise fun a b => a.1 < b.1 := by
  induction es with
  | nil => simp [setEntry]
  | cons e es ih =>
    rw [pairwise_cons] at h
    unfold setEntry
    split
    . next hlt =>
      rw [pairwise_cons, pairwise_cons]
      refine ⟨?_, h⟩
      intro x hx
      cases mem_cons.mp hx with
      | inl heq => simpa [heq] using hlt
      | inr hmem => exact Nat.lt_trans hlt (h.1 x hmem)
    . next hge =>
      split
      . next heq =>
        rw [pairwise_cons]
        subst heq
        exact ⟨h.1, h.2⟩
      . next hne =>
        rw [pairwise_cons]
        refine ⟨?_, ih h.2⟩
        intro x hx
        cases mem_setEntry hx with
        | inl heq =>
          rw [heq]
          omega
        | inr hmem => exact h.1 x hmem

def set (m : IndexMap ν) (k : Nat) (v : ν) : IndexMap ν :=
  ⟨setEntry k v m.entries, setEntry_ascending k v m.ascending⟩

theorem filter_eq_self_of_lt (h : ∀ e ∈ es, k < e.1) : (es.filter fun e => e.1 ≠ k) = es := by
  rw [filter_eq_self]
  intro e he
  have := h e he
  simp
  omega

theorem setEntry_perm (k : Nat) (v : ν) (h : es.Pairwise fun a b => a.1 < b.1)
    : (setEntry k v es).Perm ((k, v) :: es.filter fun e => e.1 ≠ k) := by
  induction es with
  | nil => simp [setEntry]
  | cons e es ih =>
    rw [pairwise_cons] at h
    unfold setEntry
    split
    . next hlt =>
      rw [filter_eq_self_of_lt]
      intro x hx
      cases mem_cons.mp hx with
      | inl heq => simpa [heq] using hlt
      | inr hmem => exact Nat.lt_trans hlt (h.1 x hmem)
    . split
      . next heq =>
        rw [filter_cons_of_neg (by simp [heq]), filter_eq_self_of_lt]
        intro x hx
        rw [heq]
        exact h.1 x hx
      . next hne =>
        rw [filter_cons_of_pos (by simp [Ne.symm hne])]
        exact ((ih h.2).cons e).trans (Perm.swap (k, v) e _)

theorem set_perm (m : IndexMap ν) (k : Nat) (v : ν)
    : (m.set k v).entries.Perm ((k, v) :: (m.delete k).entries) :=
  setEntry_perm k v m.ascending

theorem get?_eq_some_iff : m.get? k = some v ↔ (k, v) ∈ m.entries := by
  have hasc := m.ascending
  unfold get?
  generalize m.entries = es at hasc
  induction es with
  | nil => simp
  | cons e es ih =>
    rw [pairwise_cons] at hasc
    rw [find?_cons]
    split
    . next heq =>
      simp only [decide_eq_true_eq] at heq
      subst heq
      have hnot : (e.1, v) ∉ es := by
        intro hmem
        have := hasc.1 _ hmem
        simp at this
      simp [hnot, Prod.ext_iff, eq_comm]
    . next hne =>
      apply (ih hasc.2).trans
      rw [mem_cons]
      constructor
      . exact Or.inr
      . intro h
        cases h with
        | inl heq =>
          rw [← heq] at hne
          simp at hne
        | inr hmem => exact hmem

theorem get?_eq_none_iff : m.get? k = none ↔ k ∉ m.keys := by
  constructor
  . intro h hmem
    obtain ⟨⟨k', v⟩, hentry, rfl⟩ := mem_map.mp hmem
    rw [get?_eq_some_iff.mpr hentry] at h
    contradiction
  . intro h
    cases hv : m.get? k with
    | none => rfl
    | some v => exact absurd (mem_map.mpr ⟨(k, v), get?_eq_some_iff.mp hv, rfl⟩) h

theorem mem_set_iff : e ∈ (m.set k v).entries ↔ e = (k, v) ∨ (e ∈ m.entries ∧ e.1 ≠ k) := by
  rw [(set_perm m k v).mem_iff, mem_cons]
  simp [delete]

theorem get?_set (m : IndexMap ν) (k k' : Nat) (v : ν)
    : (m.set k v).get? k' = if k = k' then some v else m.get? k' := by
  apply Option.ext
  intro w
  rw [get?_eq_some_iff, mem_set_iff]
  split
  . next heq =>
    subst heq
    simp [eq_comm]
  . next hne =>
    rw [get?_eq_some_iff]
    simp [Ne.symm hne]

@[simp]
theorem get?_set_self (m : IndexMap ν) (k : Nat) (v : ν) : (m.set k v).get? k = some v := by
  simp [get?_set]

theorem get?_delete (m : IndexMap ν) (k k' : Nat)
    : (m.delete k).get? k' = if k = k' then none else m.get? k' := by
  apply Option.ext
  intro w
  rw [get?_eq_some_iff]
  unfold delete
  split
  . next heq => simp [heq]
  . next hne =>
    rw [get?_eq_some_iff]
    simp [Ne.symm hne]

theorem perm_cons_filter (hasc : es.Pairwise fun a b => a.1 < b.1) (h : (k, v) ∈ es)
    : es.Perm ((k, v) :: es.filter fun e => e.1 ≠ k) := by
  induction es with
  | nil => contradiction
  | cons e es ih =>
    rw [pairwise_cons] at hasc
    cases mem_cons.mp h with
    | inl heq =>
      subst heq
      rw [filter_cons_of_neg (by simp), filter_eq_self_of_lt hasc.1]
    | inr hmem =>
      have hlt : e.1 < k := hasc.1 (k, v) hmem
      rw [filter_cons_of_pos (by simp; omega)]
      exact ((ih hasc.2 hmem).cons e).trans (Perm.swap (k, v) e _)

theorem perm_of_get? (h : m.get? k = some v) : m.entries.Perm ((k, v) :: (m.delete k).entries) :=
  perm_cons_filter m.ascending (get?_eq_some_iff.mp h)

theorem delete_of_not_mem (h : k ∉ m.keys) : (m.delete k).entries = m.entries := by
  unfold delete
  rw [filter_eq_self]
  intro e he
  rw [decide_eq_true_eq]
  intro heq
  apply h
  rw [← heq]
  exact mem_map_of_mem he

theorem delete_set_perm (m : IndexMap ν) (k : Nat) (v : ν)
    : ((m.set k v).delete k).entries.Perm (m.delete k).entries := by
  have h := (set_perm m k v).symm.trans (perm_of_get? (get?_set_self m k v))
  exact (perm_cons _).mp h.symm

theorem size_eq_of_get? (h : ∀ i, (m.get? i).isSome ↔ i < n) : m.size = n := by
  have hnodup : m.keys.Nodup := by
    unfold keys Nodup
    rw [pairwise_map]
    apply m.ascending.imp
    intro a b hlt
    omega
  have hperm : m.keys.Perm (range n) := by
    rw [perm_ext_iff_of_nodup hnodup nodup_range]
    intro i
    rw [mem_range, ← h i, Option.isSome_iff_ne_none, ne_eq, get?_eq_none_iff, not_not]
  have hlength := hperm.length_eq
  rw [length_range] at hlength
  rw [← hlength]
  simp [size, keys]

end IndexMap
