import AppSuite.Data.ExceptFold
import AppSuite.Data.OrderedSet
import AppSuite.Graph.DepthFirst
import AppSuite.Graph.Worklist

/-!
This module contains the recursion that marks what it finds and goes into it once.
-/

namespace Explore

open List DepthFirst Worklist

variable {ε α V : Type} [DecidableEq V]

omit [DecidableEq V] in
theorem exists_step_avoiding {r : V → V → Prop} {a b : V} (h : Relation.ReflTransGen r a b) (hne : b ≠ a)
    : ∃ v, r a v ∧ Relation.ReflTransGen (fun x y => x ≠ a ∧ r x y) v b := by
  induction h with
  | refl => contradiction
  | @tail c d _ hstep ih =>
    by_cases heq : c = a
    . rw [heq] at hstep
      exact ⟨d, hstep, .refl⟩
    . have ⟨v, hfirst, hpath⟩ := ih heq
      exact ⟨v, hfirst, hpath.tail ⟨heq, hstep⟩⟩

def explore (next : α → Except ε (List V)) (target : V → α)
    : Nat → α → OrderedSet V → Except ε (OrderedSet V)
  | 0, _, seen => .ok seen
  | fuel + 1, a, seen => do
    let vs ← next a
    vs.foldlM (fun seen v =>
      if seen.has v then
        .ok seen
      else
        explore next target fuel (target v) (seen.add v)) seen

-- What the callers have still to look at is pending.
def Marked (target : V → α) (succ : α → List V) (start : Set V) (seen : OrderedSet V) (pending : Set V)
    : Prop :=
  Explored (fun v w => w ∈ succ (target v)) start { v | v ∈ seen.elems } pending

variable {target : V → α} {succ : α → List V} {start pending : Set V} {seen : OrderedSet V} {v : V}

omit [DecidableEq V] in
theorem Marked.skip (h : Marked target succ start seen (insert v pending)) (hv : v ∈ seen.elems)
    : Marked target succ start seen pending := by
  have hvisit : Explored _ start (insert v { v | v ∈ seen.elems }) (pending ∪ ∅) :=
    Explored.visit h nofun (.inl hv)
  rwa [Set.insert_eq_of_mem (Set.mem_ofPred_eq ▸ hv), Set.union_empty] at hvisit

theorem Marked.add (h : Marked target succ start seen (insert v pending))
    : Marked target succ start (seen.add v) (pending ∪ { w | w ∈ succ (target v) }) := by
  have hvisit := Explored.visit h (fun _ => id) (.inr fun _ => id)
  have hadd : { x | x ∈ (seen.add v).elems } = insert v { x | x ∈ seen.elems } := by
    ext x
    exact OrderedSet.mem_add.trans or_comm
  rwa [Marked, hadd]

variable {next : α → Except ε (List V)} (target succ) (all : List V) (A : α → Prop)
  (hnext : ∀ a, A a → next a = .ok (succ a)) (hall : ∀ a, A a → ∀ v ∈ succ a, v ∈ all ∧ A (target v))

include hnext hall

theorem exists_explore {a : α} (ha : A a) (hfuel : unvisited all seen.elems < fuel)
    (h : Marked target succ start seen (pending ∪ { v | v ∈ succ a }))
    : ∃ result, explore next target fuel a seen = .ok result ∧ seen.elems ⊆ result.elems
        ∧ Marked target succ start result pending := by
  induction fuel generalizing a seen pending with
  | zero => omega
  | succ fuel ih =>
    have hloop (vs : List V) (hvs : ∀ v ∈ vs, v ∈ all ∧ A (target v)) {seen : OrderedSet V}
        (hfuel : unvisited all seen.elems < fuel + 1)
        (h : Marked target succ start seen (pending ∪ { v | v ∈ vs }))
        : ∃ result, vs.foldlM (fun seen v =>
              if seen.has v then .ok seen else explore next target fuel (target v) (seen.add v)) seen
            = .ok result ∧ seen.elems ⊆ result.elems ∧ Marked target succ start result pending := by
      induction vs generalizing seen with
      | nil => exact ⟨seen, rfl, fun _ => id, by simpa using h⟩
      | cons v vs ihvs =>
        rw [forall_mem_cons] at hvs
        rw [setOfPred_mem_cons, Set.union_insert] at h
        have hfirst : ∃ mid, (if seen.has v then .ok seen
            else explore next target fuel (target v) (seen.add v)) = .ok mid
            ∧ seen.elems ⊆ mid.elems ∧ Marked target succ start mid (pending ∪ { x | x ∈ vs }) := by
          split
          . next hhas => exact ⟨seen, rfl, fun _ => id, h.skip (OrderedSet.has_iff.mp hhas)⟩
          . next hnew =>
            rw [OrderedSet.has_iff] at hnew
            have hlt := unvisited_lt hvs.1.1 hnew
            have hadd := OrderedSet.elems_add hnew
            obtain ⟨mid, hmid, hgrows, hrest⟩ := ih hvs.1.2 (by rw [hadd]; omega) h.add
            rw [hadd] at hgrows
            exact ⟨mid, hmid, fun _ hx => hgrows (mem_append_left _ hx), hrest⟩
        obtain ⟨mid, hmid, hgrows, hmarked⟩ := hfirst
        have hle : unvisited all mid.elems ≤ unvisited all seen.elems := unvisited_le hgrows
        obtain ⟨result, hresult, hgrows', hdone⟩ := ihvs hvs.2 (by omega) hmarked
        refine ⟨result, ?_, List.Subset.trans hgrows hgrows', hdone⟩
        rw [ExceptFold.foldlM_cons_of_ok hmid]
        exact hresult
    rw [explore, hnext a ha]
    exact hloop (succ a) (hall a ha) hfuel h

theorem exists_explore_empty {a : α} (ha : A a)
    : ∃ result, explore next target (all.length + 1) a .empty = .ok result
        ∧ ∀ v, v ∈ result.elems ↔ v ∈ reach (fun v w => w ∈ succ (target v)) { v | v ∈ succ a } := by
  have hinit : Marked target succ { v | v ∈ succ a } .empty (∅ ∪ { v | v ∈ succ a }) := by
    simpa [Marked, OrderedSet.empty] using Explored.init _ _
  obtain ⟨result, hresult, _, hdone⟩ := exists_explore target succ all A hnext hall ha
    (Nat.lt_succ_of_le (length_filter_le _ _)) hinit
  exact ⟨result, hresult, Set.ext_iff.mp hdone.seen_eq⟩

end Explore
