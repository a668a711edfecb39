import AppSuite.Data.OrderedMap
import AppSuite.Data.OrderedSet
import AppSuite.System.Run

/-!
This module contains how a map in some state is brought in line with another one.
-/

namespace Reconcile

open List OrderedMap

variable {κ ν μ S α : Type} [DecidableEq κ]

-- `step` writes the key of the entry into the map that `view` shows, and takes it from the unhandled keys;
-- `r` relates the entry's value, the old value and the new one, and `added` is what the entry adds to `acc`.
structure Writes (view : S → OrderedMap κ μ) (acc : S → α → Prop)
    (step : S × OrderedSet κ → κ × ν → S × OrderedSet κ) (r : ν → Option μ → μ → Prop)
    (added : ν → Option μ → α → Prop) : Prop where
  written : ∀ s e, ∃ w, (view (step s e).1).get? e.1 = some w ∧ r e.2 ((view s.1).get? e.1) w
  others : ∀ s e k, k ≠ e.1 → (view (step s e).1).get? k = (view s.1).get? k
  unhandled : ∀ s e k, k ∈ (step s e).2.elems ↔ k ∈ s.2.elems ∧ k ≠ e.1
  acc : ∀ s e x, acc (step s e).1 x ↔ acc s.1 x ∨ added e.2 ((view s.1).get? e.1) x

structure Removes (view : S → OrderedMap κ μ) (acc : S → α → Prop) (remove : S → κ → S)
    (lost : μ → α → Prop) : Prop where
  removed : ∀ s k k', (view (remove s k)).get? k' = if k = k' then none else (view s).get? k'
  acc : ∀ s k x, acc (remove s k) x ↔ acc s x ∨ ∃ w, (view s).get? k = some w ∧ lost w x

variable {view : S → OrderedMap κ μ} {acc : S → α → Prop} {step : S × OrderedSet κ → κ × ν → S × OrderedSet κ}
  {r : ν → Option μ → μ → Prop} {added : ν → Option μ → α → Prop} {remove : S → κ → S} {lost : μ → α → Prop}

namespace Writes

variable {es : List (κ × ν)}

section

variable (h : Writes view acc step r added)

include h

theorem get?_foldl_of_not_mem (hk : k ∉ es.map Prod.fst)
    (s : S × OrderedSet κ)
    : (view (es.foldl step s).1).get? k = (view s.1).get? k := by
  induction es generalizing s with
  | nil => rfl
  | cons e es ih =>
    rw [map_cons, mem_cons, not_or] at hk
    rw [foldl_cons, ih hk.2, h.others s e k hk.1]

theorem get?_foldl_of_mem (hes : (es.map Prod.fst).Nodup)
    (he : e ∈ es) (s : S × OrderedSet κ)
    : ∃ w, (view (es.foldl step s).1).get? e.1 = some w ∧ r e.2 ((view s.1).get? e.1) w := by
  induction es generalizing s with
  | nil => contradiction
  | cons e' es ih =>
    rw [map_cons, nodup_cons] at hes
    rw [foldl_cons]
    rcases mem_cons.mp he with rfl | he
    . rw [h.get?_foldl_of_not_mem hes.1]
      exact h.written s e
    . have hne : e.1 ≠ e'.1 := by
        intro heq
        apply hes.1
        rw [← heq]
        exact mem_map_of_mem he
      rw [← h.others s e' e.1 hne]
      exact ih hes.2 he (step s e')

theorem unhandled_foldl (es : List (κ × ν)) (s : S × OrderedSet κ) (k : κ)
    : k ∈ (es.foldl step s).2.elems ↔ k ∈ s.2.elems ∧ k ∉ es.map Prod.fst := by
  induction es generalizing s with
  | nil => simp
  | cons e es ih =>
    rw [foldl_cons, ih, h.unhandled, map_cons, mem_cons, not_or, and_assoc]

theorem acc_foldl (hes : (es.map Prod.fst).Nodup) (s : S × OrderedSet κ)
    (x : α)
    : acc (es.foldl step s).1 x ↔ acc s.1 x ∨ ∃ e ∈ es, added e.2 ((view s.1).get? e.1) x := by
  induction es generalizing s with
  | nil => simp
  | cons e es ih =>
    rw [map_cons, nodup_cons] at hes
    have hview {e' : κ × ν} (he' : e' ∈ es) : (view (step s e).1).get? e'.1 = (view s.1).get? e'.1 := by
      apply h.others
      intro heq
      apply hes.1
      rw [← heq]
      exact mem_map_of_mem he'
    rw [foldl_cons, ih hes.2, h.acc, or_assoc]
    apply or_congr_right
    constructor
    . rintro (hx | ⟨e', he', hx⟩)
      . exact ⟨e, mem_cons_self, hx⟩
      . rw [hview he'] at hx
        exact ⟨e', mem_cons_of_mem e he', hx⟩
    . rintro ⟨e', he', hx⟩
      rcases mem_cons.mp he' with rfl | he'
      . exact .inl hx
      . rw [← hview he'] at hx
        exact .inr ⟨e', he', hx⟩

end

end Writes

namespace Removes

theorem get?_foldl (h : Removes view acc remove lost) (ks : List κ) (s : S) (k : κ)
    : (view (ks.foldl remove s)).get? k = if k ∈ ks then none else (view s).get? k := by
  induction ks generalizing s with
  | nil => rfl
  | cons k' ks ih =>
    rw [foldl_cons, ih, h.removed]
    by_cases hk : k ∈ ks
    . rw [if_pos hk, if_pos (mem_cons_of_mem k' hk)]
    . by_cases heq : k' = k
      . rw [if_neg hk, if_pos heq, if_pos (mem_cons.mpr (.inl heq.symm))]
      . rw [if_neg hk, if_neg heq, if_neg]
        rw [mem_cons, not_or]
        exact ⟨Ne.symm heq, hk⟩

theorem acc_foldl (h : Removes view acc remove lost) (ks : List κ) (s : S) (x : α)
    : acc (ks.foldl remove s) x ↔ acc s x ∨ ∃ k ∈ ks, ∃ w, (view s).get? k = some w ∧ lost w x := by
  induction ks generalizing s with
  | nil => simp
  | cons k' ks ih =>
    rw [foldl_cons, ih, h.acc, or_assoc]
    apply or_congr_right
    constructor
    . rintro (⟨w, hw, hx⟩ | ⟨k, hk, w, hw, hx⟩)
      . exact ⟨k', mem_cons_self, w, hw, hx⟩
      . rw [h.removed] at hw
        split at hw
        . contradiction
        . exact ⟨k, mem_cons_of_mem k' hk, w, hw, hx⟩
    . rintro ⟨k, hk, w, hw, hx⟩
      by_cases heq : k' = k
      . subst heq
        exact .inl ⟨w, hw, hx⟩
      . refine .inr ⟨k, (mem_cons.mp hk).resolve_left (Ne.symm heq), w, ?_, hx⟩
        rw [h.removed, if_neg heq]
        exact hw

end Removes

def reconcile (view : S → OrderedMap κ μ) (step : S × OrderedSet κ → κ × ν → S × OrderedSet κ)
    (remove : S → κ → S) (entries : OrderedMap κ ν) (s : S) : S :=
  let done := entries.entries.foldl step (s, .ofList (view s).keys)
  done.2.elems.foldl remove done.1

variable {entries : OrderedMap κ ν}

section

variable (hwrites : Writes view acc step r added) (hremoves : Removes view acc remove lost)

include hwrites hremoves

theorem get?_reconcile_of_some (hk : entries.get? k = some v) (s : S)
    : ∃ w, (view (reconcile view step remove entries s)).get? k = some w ∧ r v ((view s).get? k) w := by
  have hmem := get?_eq_some_iff.mp hk
  obtain ⟨w, hw, hr⟩ := hwrites.get?_foldl_of_mem entries.nodup hmem (s, .ofList (view s).keys)
  refine ⟨w, ?_, hr⟩
  rw [reconcile, hremoves.get?_foldl, if_neg]
  . exact hw
  . rw [hwrites.unhandled_foldl]
    rintro ⟨_, hnot⟩
    exact hnot (mem_map_of_mem (f := Prod.fst) hmem)

theorem get?_reconcile_of_none (hk : entries.get? k = none) (s : S)
    : (view (reconcile view step remove entries s)).get? k = none := by
  have hmem := get?_eq_none_iff.mp hk
  rw [reconcile, hremoves.get?_foldl]
  split
  . rfl
  . next hnot =>
    rw [hwrites.unhandled_foldl, OrderedSet.mem_ofList] at hnot
    rw [hwrites.get?_foldl_of_not_mem hmem]
    by_contra hsome
    apply hnot
    refine ⟨?_, hmem⟩
    by_contra hkeys
    exact hsome (get?_eq_none_iff.mpr hkeys)

theorem acc_reconcile (entries : OrderedMap κ ν) (s : S) (x : α)
    : acc (reconcile view step remove entries s) x ↔
      acc s x ∨ (∃ k v, entries.get? k = some v ∧ added v ((view s).get? k) x) ∨
        ∃ k w, entries.get? k = none ∧ (view s).get? k = some w ∧ lost w x := by
  rw [reconcile, hremoves.acc_foldl, hwrites.acc_foldl entries.nodup, or_assoc]
  apply or_congr_right
  apply or_congr
  . constructor
    . rintro ⟨⟨k, v⟩, hmem, hx⟩
      exact ⟨k, v, get?_eq_some_iff.mpr hmem, hx⟩
    . rintro ⟨k, v, hk, hx⟩
      exact ⟨(k, v), get?_eq_some_iff.mp hk, hx⟩
  . constructor
    . rintro ⟨k, hk, w, hw, hx⟩
      rw [hwrites.unhandled_foldl] at hk
      rw [hwrites.get?_foldl_of_not_mem hk.2] at hw
      exact ⟨k, w, get?_eq_none_iff.mpr hk.2, hw, hx⟩
    . rintro ⟨k, w, hk, hw, hx⟩
      have hmem := get?_eq_none_iff.mp hk
      refine ⟨k, ?_, w, ?_, hx⟩
      . rw [hwrites.unhandled_foldl, OrderedSet.mem_ofList]
        refine ⟨?_, hmem⟩
        by_contra hkeys
        rw [get?_eq_none_iff.mpr hkeys] at hw
        contradiction
      . rw [hwrites.get?_foldl_of_not_mem hmem]
        exact hw

end

theorem reconcile_frame {β : Type} (f : S → β) (hstep : ∀ s e, f (step s e).1 = f s.1)
    (hremove : ∀ s k, f (remove s k) = f s) (entries : OrderedMap κ ν) (s : S)
    : f (reconcile view step remove entries s) = f s := by
  rw [reconcile, Run.foldl_frame f hremove]
  exact Run.foldl_frame (fun s => f s.1) hstep (s, .ofList (view s).keys) entries.entries

theorem reconcile_eq_self (hunhandled : ∀ s e k, k ∈ (step s e).2.elems ↔ k ∈ s.2.elems ∧ k ≠ e.1)
    (hstep : ∀ e ∈ entries.entries, ∀ unhandled, (step (s, unhandled) e).1 = s)
    (hkeys : ∀ k ∈ (view s).keys, k ∈ entries.keys)
    : reconcile view step remove entries s = s := by
  have hfold (es : List (κ × ν)) (hes : ∀ e ∈ es, e ∈ entries.entries) (unhandled : OrderedSet κ)
      : (es.foldl step (s, unhandled)).1 = s ∧
        ∀ k, k ∈ (es.foldl step (s, unhandled)).2.elems → k ∈ unhandled.elems ∧ k ∉ es.map Prod.fst := by
    induction es generalizing unhandled with
    | nil => simp
    | cons e es ih =>
      rw [forall_mem_cons] at hes
      have hone : step (s, unhandled) e = (s, (step (s, unhandled) e).2) :=
        Prod.ext (hstep e hes.1 unhandled) rfl
      rw [foldl_cons, hone]
      obtain ⟨hfst, hsnd⟩ := ih hes.2 (step (s, unhandled) e).2
      refine ⟨hfst, ?_⟩
      intro k hk
      obtain ⟨hmem, hnot⟩ := hsnd k hk
      rw [hunhandled] at hmem
      rw [map_cons, mem_cons, not_or]
      exact ⟨hmem.1, hmem.2, hnot⟩
  obtain ⟨hfst, hsnd⟩ := hfold entries.entries (fun e he => he) (.ofList (view s).keys)
  have hempty : (entries.entries.foldl step (s, .ofList (view s).keys)).2.elems = [] := by
    apply eq_nil_iff_forall_not_mem.mpr
    intro k hk
    obtain ⟨hmem, hnot⟩ := hsnd k hk
    rw [OrderedSet.mem_ofList] at hmem
    exact hnot (hkeys k hmem)
  rw [reconcile, hempty, hfst]
  rfl

end Reconcile
