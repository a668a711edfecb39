import Mathlib

/-!
This module contains what a worklist explores, in whatever order its vertices are taken and however
often.
-/

namespace Worklist

variable {V : Type} {edge edge' : V → V → Prop}

def reach (edge : V → V → Prop) (start : Set V) : Set V :=
  { v | ∃ s ∈ start, Relation.ReflTransGen edge s v }

def Closed (edge : V → V → Prop) (S : Set V) : Prop := ∀ u ∈ S, ∀ v, edge u v → v ∈ S

theorem subset_reach (start : Set V) : start ⊆ reach edge start := by
  intro v hv
  exact ⟨v, hv, .refl⟩

theorem closed_reach (start : Set V) : Closed edge (reach edge start) := by
  rintro u ⟨s, hs, hpath⟩ v huv
  exact ⟨s, hs, hpath.tail huv⟩

variable {start S : Set V}

theorem reach_subset (hstart : start ⊆ S) (hclosed : Closed edge S) : reach edge start ⊆ S := by
  rintro v ⟨s, hs, hpath⟩
  induction hpath with
  | refl => exact hstart hs
  | tail _ huv ih => exact hclosed _ ih _ huv

theorem reach_union (S T : Set V) : reach edge (S ∪ T) = reach edge S ∪ reach edge T := by
  ext v
  constructor
  . rintro ⟨s, hs | hs, hpath⟩
    . exact .inl ⟨s, hs, hpath⟩
    . exact .inr ⟨s, hs, hpath⟩
  . rintro (⟨s, hs, hpath⟩ | ⟨s, hs, hpath⟩)
    . exact ⟨s, .inl hs, hpath⟩
    . exact ⟨s, .inr hs, hpath⟩

theorem union_reach_eq (hclosed : Closed edge S) (hsub : ∀ u v, edge' u v → edge u v)
    (hkeep : ∀ u v, edge u v → u ∉ S → v ∉ S → edge' u v)
    : S ∪ reach edge' start = S ∪ reach edge start := by
  apply Set.Subset.antisymm
  . apply Set.union_subset_union_right
    apply reach_subset (subset_reach start)
    intro u hu v huv
    exact closed_reach start u hu v (hsub u v huv)
  . apply Set.union_subset Set.subset_union_left
    apply reach_subset
    . exact Set.subset_union_of_subset_right (subset_reach start) S
    . rintro u (hu | hu) v huv
      . exact .inl (hclosed u hu v huv)
      . by_cases hv : v ∈ S
        . exact .inl hv
        . by_cases hmem : u ∈ S
          . exact .inl (hclosed u hmem v huv)
          . exact .inr (closed_reach start u hu v (hkeep u v huv hmem hv))

structure Explored (edge : V → V → Prop) (start seen pending : Set V) : Prop where
  reached : seen ∪ pending ⊆ reach edge start
  start : start ⊆ seen ∪ pending
  closed : ∀ u ∈ seen, ∀ v, edge u v → v ∈ seen ∪ pending

namespace Explored

variable {start seen pending : Set V}

theorem init (edge : V → V → Prop) (start : Set V) : Explored edge start ∅ start := by
  constructor
  . rw [Set.empty_union]
    exact subset_reach start
  . exact Set.subset_union_right
  . intro u hu
    exact hu.elim

theorem visit (h : Explored edge start seen (insert u pending))
    (hpushed : ∀ v ∈ pushed, edge u v) (hall : u ∈ seen ∨ ∀ v, edge u v → v ∈ pushed)
    : Explored edge start (insert u seen) (pending ∪ pushed) := by
  have hu : u ∈ reach edge start := h.reached (.inr (.inl rfl))
  have hsplit : seen ∪ insert u pending ⊆ insert u seen ∪ (pending ∪ pushed) := by
    rintro v (hv | rfl | hv)
    . exact .inl (.inr hv)
    . exact .inl (.inl rfl)
    . exact .inr (.inl hv)
  constructor
  . rintro v ((rfl | hv) | hv | hv)
    . exact hu
    . exact h.reached (.inl hv)
    . exact h.reached (.inr (.inr hv))
    . exact closed_reach start u hu v (hpushed v hv)
  . exact h.start.trans hsplit
  . rintro w (rfl | hw) v hwv
    . rcases hall with hseen | hall
      . exact hsplit (h.closed w hseen v hwv)
      . exact .inr (.inr (hall v hwv))
    . exact hsplit (h.closed w hw v hwv)

theorem seen_eq (h : Explored edge start seen ∅) : seen = reach edge start := by
  have ⟨hreached, hstart, hclosed⟩ := h
  rw [Set.union_empty] at hreached hstart hclosed
  apply Set.Subset.antisymm hreached
  exact reach_subset hstart hclosed

end Explored

end Worklist
