import AppSuite.System.Run

/-!
This module contains depth first search as a sequence of events. What a search does at these events
is up to the caller; `Legal` says what the sequence itself guarantees.
-/

namespace DepthFirst

open List

inductive Event (V : Type) where
  | enter (v : V)
  | edge (u c : V)
  | leave (v : V)

structure Walk (V : Type) where
  order : List V
  frames : List V
  tree : List (V × V)
  log : List (V × V)

namespace Walk

variable {V : Type}

def empty : Walk V := ⟨[], [], [], []⟩

def advance (w : Walk V) (event : Event V) : Walk V :=
  match event with
  | .enter v =>
    { w with
      order := w.order ++ [v]
      frames := v :: w.frames
      tree := w.frames.head?.toList.map (·, v) ++ w.tree }
  | .edge u c => { w with log := (u, c) :: w.log }
  | .leave _ => { w with frames := w.frames.tail }

theorem mem_order_enter {w : Walk V}
    : x ∈ (w.advance (.enter v)).order ↔ x ∈ w.order ∨ x = v := by
  simp [advance]

theorem mem_frames_enter {w : Walk V}
    : x ∈ (w.advance (.enter v)).frames ↔ x = v ∨ x ∈ w.frames := by
  simp [advance]

theorem mem_tree_enter {w : Walk V}
    : e ∈ (w.advance (.enter v)).tree ↔ (∃ p, w.frames.head? = some p ∧ e = (p, v)) ∨ e ∈ w.tree := by
  simp [advance, eq_comm]

theorem mem_log_edge {w : Walk V}
    : e ∈ (w.advance (.edge u c)).log ↔ e = (u, c) ∨ e ∈ w.log := by
  simp [advance]

theorem frames_leave (w : Walk V) (v : V) : (w.advance (.leave v)).frames = w.frames.tail := rfl

end Walk

section Search

variable {V : Type} [DecidableEq V]

def visitAll (visit : V → List V → List (Event V) × List V) (u : V)
    : List V → List V → List (Event V) × List V
  | [], visited => ([], visited)
  | c :: cs, visited =>
    let first := visit c visited
    let rest := visitAll visit u cs first.2
    (first.1 ++ .edge u c :: rest.1, rest.2)

def visit (children : V → List V) : Nat → V → List V → List (Event V) × List V
  | 0, _, visited => ([], visited)
  | fuel + 1, v, visited =>
    if v ∈ visited then
      ([], visited)
    else
      let inner := visitAll (visit children fuel) v (children v) (visited ++ [v])
      (.enter v :: (inner.1 ++ [.leave v]), inner.2)

def search (children : V → List V) (fuel : Nat) : List V → List V → List (Event V) × List V
  | [], visited => ([], visited)
  | v :: vs, visited =>
    let first := visit children fuel v visited
    let rest := search children fuel vs first.2
    (first.1 ++ rest.1, rest.2)

end Search

variable {V : Type}

def Legal (children : V → List V) (w : Walk V) (event : Event V) : Prop :=
  match event with
  | .enter v => v ∉ w.order ∧ ∀ u, w.frames.head? = some u → v ∈ children u
  | .edge u c => w.frames.head? = some u ∧ c ∈ w.order ∧ c ∈ children u
  | .leave u => w.frames.head? = some u ∧ ∀ c ∈ children u, (u, c) ∈ w.log

structure Excursion (children : V → List V) (vs : List V) (w : Walk V) (events : List (Event V))
    (visited : List V) : Prop where
  legal : Run.Along Walk.advance (Legal children) w events
  order : (events.foldl Walk.advance w).order = visited
  frames : (events.foldl Walk.advance w).frames = w.frames
  grows : w.order <+: visited
  within : ∀ x ∈ visited, x ∈ w.order ∨ x ∈ vs
  log : ∀ e ∈ w.log, e ∈ (events.foldl Walk.advance w).log

namespace Excursion

variable {children : V → List V} {vs : List V} {w : Walk V} {events events' : List (Event V)}
  {visited visited' : List V}

theorem nil : Excursion children vs w [] w.order :=
  ⟨trivial, rfl, rfl, prefix_refl _, fun _ hx => Or.inl hx, fun _ he => he⟩

theorem append (h : Excursion children vs w events visited)
    (h' : Excursion children vs (events.foldl Walk.advance w) events' visited')
    : Excursion children vs w (events ++ events') visited' := by
  refine ⟨Run.along_append.mpr ⟨h.legal, h'.legal⟩, ?_, ?_, ?_, ?_, ?_⟩
  . rw [foldl_append]
    exact h'.order
  . rw [foldl_append, h'.frames, h.frames]
  . have hgrows := h'.grows
    rw [h.order] at hgrows
    exact h.grows.trans hgrows
  . intro x hx
    cases h'.within x hx with
    | inl hmem =>
      rw [h.order] at hmem
      exact h.within x hmem
    | inr hmem => exact Or.inr hmem
  . intro e he
    rw [foldl_append]
    exact h'.log e (h.log e he)

theorem edge (hlegal : Legal children w (.edge u c))
    (h : Excursion children vs (w.advance (.edge u c)) events visited)
    : Excursion children vs w (.edge u c :: events) visited := by
  refine ⟨⟨hlegal, h.legal⟩, h.order, h.frames, h.grows, h.within, ?_⟩
  intro e he
  exact h.log e (mem_cons_of_mem _ he)

theorem around (hv : v ∈ vs) (hlegal : Legal children w (.enter v))
    (h : Excursion children vs (w.advance (.enter v)) events visited)
    (hlog : ∀ c ∈ children v, (v, c) ∈ (events.foldl Walk.advance (w.advance (.enter v))).log)
    : Excursion children vs w (.enter v :: (events ++ [.leave v])) visited := by
  refine ⟨⟨hlegal, ?_⟩, ?_, ?_, ?_, ?_, ?_⟩
  . rw [Run.along_append]
    refine ⟨h.legal, ⟨?_, hlog⟩, trivial⟩
    rw [h.frames]
    rfl
  . rw [foldl_cons, foldl_append]
    exact h.order
  . rw [foldl_cons, foldl_append, foldl_cons, foldl_nil]
    rw [Walk.frames_leave, h.frames]
    rfl
  . exact (prefix_append _ _).trans h.grows
  . intro x hx
    cases h.within x hx with
    | inl hmem =>
      rw [Walk.mem_order_enter] at hmem
      apply hmem.imp_right
      intro heq
      rw [heq]
      assumption
    | inr hmem => exact Or.inr hmem
  . intro e he
    rw [foldl_cons, foldl_append]
    exact h.log e he

end Excursion

section Legality

variable [DecidableEq V] {children : V → List V} {vs : List V}

def unvisited (vs visited : List V) : Nat := (vs.filter (· ∉ visited)).length

theorem unvisited_le {visited visited' : List V} (h : visited ⊆ visited')
    : unvisited vs visited' ≤ unvisited vs visited := by
  apply List.Sublist.length_le
  apply monotone_filter_right
  intro x hx
  simp only [decide_eq_true_eq] at hx ⊢
  intro hmem
  exact hx (h hmem)

theorem unvisited_lt {visited : List V} (hv : v ∈ vs) (hnew : v ∉ visited)
    : unvisited vs (visited ++ [v]) < unvisited vs visited := by
  unfold unvisited
  have hsplit : vs.filter (· ∉ visited ++ [v]) = (vs.filter (· ∉ visited)).filter (· ≠ v) := by
    rw [filter_filter]
    apply filter_congr
    intro x _
    simp [not_or, and_comm]
  rw [hsplit]
  apply length_filter_lt_length_iff_exists.mpr
  exact ⟨v, by simp [hv, hnew], by simp⟩

theorem excursion_visitAll (hclosed : ∀ c ∈ children u, c ∈ vs)
    (hvisit : ∀ (v : V) (w : Walk V), v ∈ vs → unvisited vs w.order < fuel →
      (∀ p, w.frames.head? = some p → v ∈ children p) →
      Excursion children vs w (visit children fuel v w.order).1 (visit children fuel v w.order).2
        ∧ v ∈ (visit children fuel v w.order).2)
    (hcs : ∀ c ∈ cs, c ∈ children u) {w : Walk V} (hframe : w.frames.head? = some u)
    (hfuel : unvisited vs w.order < fuel)
    : Excursion children vs w (visitAll (visit children fuel) u cs w.order).1
        (visitAll (visit children fuel) u cs w.order).2
      ∧ ∀ c ∈ cs, (u, c) ∈
          ((visitAll (visit children fuel) u cs w.order).1.foldl Walk.advance w).log := by
  induction cs generalizing w with
  | nil => exact ⟨Excursion.nil, by simp⟩
  | cons c cs ih =>
    have hc : c ∈ children u := hcs c (by simp)
    have hp : ∀ p, w.frames.head? = some p → c ∈ children p := by
      intro p hp
      rw [hframe] at hp
      injection hp with hp
      rw [← hp]
      assumption
    have ⟨hfirst, hmem⟩ := hvisit c w (hclosed c hc) hfuel hp
    unfold visitAll
    generalize hmid : (visit children fuel c w.order).1.foldl Walk.advance w = mid at *
    have hlegal : Legal children mid (.edge u c) := by
      refine ⟨?_, ?_, hc⟩
      . rw [← hmid, hfirst.frames]
        assumption
      . rw [← hmid, hfirst.order]
        assumption
    have horder : (mid.advance (.edge u c)).order = (visit children fuel c w.order).2 := by
      rw [← hfirst.order, hmid]
      rfl
    have hrest := @ih (fun c' hc' => hcs c' (mem_cons_of_mem c hc')) (mid.advance (.edge u c))
      hlegal.1 (by
        rw [horder]
        exact Nat.lt_of_le_of_lt (unvisited_le hfirst.grows.subset) hfuel)
    rw [horder] at hrest
    have hedge := hrest.1.edge hlegal
    rw [← hmid] at hedge
    refine ⟨hfirst.append hedge, ?_⟩
    rw [foldl_append, foldl_cons, hmid, forall_mem_cons]
    refine ⟨?_, hrest.2⟩
    apply hrest.1.log
    exact mem_cons_self

theorem excursion_visit (hclosed : ∀ v ∈ vs, ∀ c ∈ children v, c ∈ vs) {w : Walk V}
    (hv : v ∈ vs) (hfuel : unvisited vs w.order < fuel)
    (hchild : ∀ p, w.frames.head? = some p → v ∈ children p)
    : Excursion children vs w (visit children fuel v w.order).1 (visit children fuel v w.order).2
      ∧ v ∈ (visit children fuel v w.order).2 := by
  induction fuel generalizing v w with
  | zero => omega
  | succ fuel ih =>
    unfold visit
    split
    . next hmem => exact ⟨Excursion.nil, hmem⟩
    . next hnew =>
      have hlt := unvisited_lt hv hnew
      have hinner := excursion_visitAll (w := w.advance (.enter v)) (hclosed v hv)
        (fun v' w' hv' hfuel' hchild' => ih hv' hfuel' hchild') (fun c hc => hc) rfl
        (Nat.lt_of_lt_of_le hlt (Nat.le_of_lt_succ hfuel))
      have hexc := Excursion.around hv ⟨hnew, hchild⟩ hinner.1 hinner.2
      refine ⟨hexc, ?_⟩
      apply hinner.1.grows.mem
      exact mem_append_right _ (by simp)

theorem excursion_search (hclosed : ∀ v ∈ vs, ∀ c ∈ children v, c ∈ vs)
    (hroots : ∀ v ∈ roots, v ∈ vs) {w : Walk V} (hframes : w.frames = [])
    (hfuel : unvisited vs w.order < fuel)
    : Excursion children vs w (search children fuel roots w.order).1 (search children fuel roots w.order).2
      ∧ ∀ v ∈ roots, v ∈ (search children fuel roots w.order).2 := by
  induction roots generalizing w with
  | nil => exact ⟨Excursion.nil, by simp⟩
  | cons v roots ih =>
    have hnone : ∀ p, w.frames.head? = some p → v ∈ children p := by
      simp [hframes]
    have ⟨hfirst, hmem⟩ := excursion_visit hclosed (hroots v (by simp)) hfuel hnone
    generalize hmid : (visit children fuel v w.order).1.foldl Walk.advance w = mid at *
    have horder : mid.order = (visit children fuel v w.order).2 := by
      rw [← hmid]
      exact hfirst.order
    have hrest := @ih (fun v' hv' => hroots v' (mem_cons_of_mem v hv')) mid
      (by rw [← hmid, hfirst.frames, hframes]) (by
        rw [horder]
        exact Nat.lt_of_le_of_lt (unvisited_le hfirst.grows.subset) hfuel)
    rw [horder] at hrest
    have hexc := hrest.1
    rw [← hmid] at hexc
    refine ⟨hfirst.append hexc, ?_⟩
    rw [forall_mem_cons]
    refine ⟨?_, hrest.2⟩
    have hgrows := hrest.1.grows
    rw [horder] at hgrows
    exact hgrows.mem hmem

end Legality

end DepthFirst
