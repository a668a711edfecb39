import Mathlib

/-!
This module contains sets that are iterated in the order in which their elements were added.
-/

structure OrderedSet (α : Type) where
  elems : List α
  nodup : elems.Nodup

namespace OrderedSet

variable {α : Type} [DecidableEq α]

def empty : OrderedSet α := ⟨[], by simp⟩

variable (s : OrderedSet α) (x : α)

def has : Bool := x ∈ s.elems

def size : Nat := s.elems.length

def filter (s : OrderedSet α) (p : α → Bool) : OrderedSet α :=
  ⟨s.elems.filter p, s.nodup.filter p⟩

def add : OrderedSet α :=
  if h : x ∈ s.elems then
    s
  else
    ⟨s.elems ++ [x], by
      rw [List.nodup_append]
      refine ⟨s.nodup, by simp, ?_⟩
      intro a ha b hb heq
      apply h
      simp at hb
      rw [← hb, ← heq]
      assumption⟩

def delete : OrderedSet α := s.filter (· ≠ x)

def ofList (xs : List α) : OrderedSet α := xs.foldl add empty

def intersection (a b : OrderedSet α) : OrderedSet α := a.filter b.has

def union (a b : OrderedSet α) : OrderedSet α := b.elems.foldl add (a.elems.foldl add empty)

def difference (minuend subtrahend : OrderedSet α) : OrderedSet α :=
  minuend.filter fun x => !subtrahend.has x

variable {s a b : OrderedSet α} {x y : α} {xs : List α}

@[simp]
theorem has_iff : s.has x = true ↔ x ∈ s.elems := by
  simp [has]

theorem elems_add (h : x ∉ s.elems) : (s.add x).elems = s.elems ++ [x] := by
  rw [add, dif_neg h]

theorem mem_add : y ∈ (s.add x).elems ↔ y ∈ s.elems ∨ y = x := by
  unfold add
  split
  . next h =>
    constructor
    . exact Or.inl
    . intro hy
      cases hy with
      | inl hy => exact hy
      | inr hy =>
        rw [hy]
        exact h
  . simp

@[simp]
theorem mem_delete : y ∈ (s.delete x).elems ↔ y ∈ s.elems ∧ y ≠ x := by
  simp [delete, filter]

omit [DecidableEq α] in
theorem size_ne_zero_of_mem (h : x ∈ s.elems) : s.size ≠ 0 := by
  have := List.length_pos_of_mem h
  unfold size
  omega

theorem mem_foldl_add : y ∈ (xs.foldl add s).elems ↔ y ∈ s.elems ∨ y ∈ xs := by
  induction xs generalizing s with
  | nil => simp
  | cons x xs ih =>
    rw [List.foldl_cons, ih, mem_add, List.mem_cons, or_assoc]

@[simp]
theorem mem_ofList : y ∈ (ofList xs).elems ↔ y ∈ xs := by
  simp [ofList, mem_foldl_add, empty]

@[simp]
theorem mem_intersection : y ∈ (a.intersection b).elems ↔ y ∈ a.elems ∧ y ∈ b.elems := by
  simp [intersection, filter]

@[simp]
theorem mem_difference : y ∈ (a.difference b).elems ↔ y ∈ a.elems ∧ y ∉ b.elems := by
  simp [difference, filter, has]

omit [DecidableEq α] in
theorem head?_of_size_le_one (h : s.size ≤ 1) (hx : x ∈ s.elems) : s.elems.head? = some x := by
  unfold size at h
  cases hs : s.elems with
  | nil =>
    rw [hs] at hx
    contradiction
  | cons y ys =>
    rw [hs] at h hx
    cases ys with
    | nil =>
      simp at hx
      simp [hx]
    | cons z zs => simp at h

def extend (s : OrderedSet α) (xs : List α) : OrderedSet α := xs.foldl add s

theorem mem_extend : y ∈ (s.extend xs).elems ↔ y ∈ s.elems ∨ y ∈ xs :=
  mem_foldl_add

theorem mem_foldl_delete : y ∈ (xs.foldl delete s).elems ↔ y ∈ s.elems ∧ y ∉ xs := by
  induction xs generalizing s with
  | nil => simp
  | cons x xs ih =>
    rw [List.foldl_cons, ih, mem_delete, List.mem_cons, not_or, and_assoc]

end OrderedSet

def OrderedSet.Same {α : Type} (a b : OrderedSet α) : Prop := ∀ x, x ∈ a.elems ↔ x ∈ b.elems

namespace OrderedSet.Same

variable {α : Type} {a b c : OrderedSet α}

instance [DecidableEq α] : Decidable (Same a b) :=
  decidable_of_iff ((∀ x ∈ a.elems, x ∈ b.elems) ∧ ∀ x ∈ b.elems, x ∈ a.elems) <| by
    constructor
    . rintro ⟨hab, hba⟩ x
      exact ⟨hab x, hba x⟩
    . intro h
      exact ⟨fun x => (h x).mp, fun x => (h x).mpr⟩

theorem refl (a : OrderedSet α) : Same a a := fun _ => Iff.rfl

theorem trans (h : Same a b) (h' : Same b c) : Same a c := fun x => (h x).trans (h' x)

end OrderedSet.Same
