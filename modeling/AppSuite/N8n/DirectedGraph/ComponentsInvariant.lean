import AppSuite.Graph.WalkInvariant
import AppSuite.N8n.DirectedGraph.Components

/-!
This module contains the invariants of the search for components. Besides `Tracks`, a search is
either sound or stuck with a node that never leaves the stack.
-/

namespace N8n
namespace DirectedGraph

open DepthFirst Walk

namespace ComponentSearch

def low (s : ComponentSearch) (x : INode) : Nat := (s.lowLinkValues.get? x).getD 0

structure Tracks (num : INode → Nat) (w : Walk INode)
    (links : List (INode × INode)) (s : ComponentSearch) : Prop where
  id : s.id = w.order.length
  ids : ∀ x ∈ w.order, s.ids.get? x = some (num x)
  lows : ∀ x ∈ w.order, s.lowLinkValues.get? x = some (s.low x)
  stack : ∀ x ∈ s.stack, x ∈ w.order
  sorted : s.stack.Pairwise fun a b => num b < num a
  frames : ∀ u ∈ w.frames, u ∈ s.stack
  sub : links.Sublist w.log
  kept : (w.log.filter fun e => e.2 ∈ s.stack).Sublist links
  attained : ∀ x ∈ w.order, ∃ y ∈ w.order, s.low x = num y ∧ Returns links x y
  low_le : ∀ x ∈ w.order, ∀ y, Returns links x y → s.low x ≤ num y
  tree : ∀ e ∈ w.tree, e ∈ links → s.low e.1 ≤ s.low e.2
  popped : ∀ scc ∈ s.stronglyConnectedComponents, ∀ x ∈ scc.elems, x ∈ w.order ∧ x ∉ s.stack

structure Good (children : INode → List INode) (num : INode → Nat) (w : Walk INode)
    (links : List (INode × INode)) (s : ComponentSearch) : Prop where
  linked : ∀ e ∈ links, e.1 ∈ s.stack → e.2 ∈ s.stack
  waiting : ∀ x ∈ s.stack, x ∉ w.frames → s.low x < num x
  closed : ∀ x ∈ w.order, x ∉ s.stack → ∀ c ∈ children x, c ∈ w.order ∧ c ∉ s.stack
  once : ∀ x ∈ w.order, x ∉ s.stack → s.stronglyConnectedComponents.countP (·.has x) = 1
  classes : ∀ scc ∈ s.stronglyConnectedComponents,
    scc.elems ≠ [] ∧ ∀ x ∈ scc.elems, ∀ y, y ∈ scc.elems ↔ Mutual children x y
  returns : ∀ x ∈ w.order, x ∉ s.stack → ∀ r, Mutual children x r →
    (∀ y, Mutual children x y → num r ≤ num y) → Returns w.log x r

structure Stuck (children : INode → List INode) (num : INode → Nat) (w : Walk INode)
    (s : ComponentSearch) (y r z : INode) : Prop where
  stack : y ∈ s.stack
  left : y ∉ w.frames
  low : s.low y = num z
  order : z ∈ w.order
  leftAlso : z ∉ w.frames
  same : Mutual children y r
  first : ∀ x, Mutual children y x → num r ≤ num x
  lost : ¬Returns w.log y r

def IsStuck (children : INode → List INode) (num : INode → Nat) (w : Walk INode) (s : ComponentSearch) : Prop :=
  ∃ y r z, Stuck children num w s y r z

section

variable {children : INode → List INode} {num : INode → Nat} {w : Walk INode}
  {links : List (INode × INode)} {s : ComponentSearch}

section

variable (s : ComponentSearch) (node x : INode)

theorem get?_ids_discover
    : (s.discover node).ids.get? x = if node = x then some s.id else s.ids.get? x := by
  apply OrderedMap.get?_set

theorem get?_lowLinkValues_discover
    : (s.discover node).lowLinkValues.get? x
      = if node = x then some s.id else s.lowLinkValues.get? x := by
  apply OrderedMap.get?_set

theorem low_discover : (s.discover node).low x = if node = x then s.id else s.low x := by
  unfold low
  rw [get?_lowLinkValues_discover]
  split <;> rfl

end

variable {x v : INode} {node : INode} {e : INode × INode}

theorem low_discover_of_ne (s : ComponentSearch) (hne : node ≠ x) : (s.discover node).low x = s.low x := by
  rw [low_discover, if_neg hne]

theorem forall_mem_order_enter {P : INode → Prop}
    : (∀ x ∈ (w.advance (.enter v)).order, P x) ↔ (∀ x ∈ w.order, P x) ∧ P v := by
  simp [mem_order_enter, or_imp, forall_and]

theorem mem_stack_discover {s : ComponentSearch}
    : x ∈ (s.discover node).stack ↔ x = node ∨ x ∈ s.stack := by
  simp [discover]

section

variable (h : Tracks num w links s)

include h

theorem Tracks.nodup : s.stack.Nodup := by
  apply h.sorted.imp
  intro a b hlt heq
  rw [heq] at hlt
  omega

theorem Tracks.low_le_num (hx : x ∈ w.order) : s.low x ≤ num x :=
  h.low_le x hx x (Returns.refl links x)

theorem Tracks.links_log (he : e ∈ links) : e ∈ w.log :=
  h.sub.mem he

theorem Tracks.mem_links (he : e ∈ w.log) (hstack : e.2 ∈ s.stack) : e ∈ links := by
  apply h.kept.mem
  rw [List.mem_filter]
  exact ⟨he, by simpa using hstack⟩

end

theorem tracks_enter (hw : w.Inv children num) (h : Tracks num w links s)
    (hlegal : Legal children w (.enter v)) (hnum : num v = w.order.length)
    : Tracks num (w.advance (.enter v)) links (s.discover v) := by
  have hnew : v ∉ w.order := hlegal.1
  have hne {x : INode} (hx : x ∈ w.order) : v ≠ x := (ne_of_mem_of_not_mem hx hnew).symm
  have hlow {x : INode} (hx : x ∈ w.order) := low_discover_of_ne s (hne hx)
  have hlowSelf : (s.discover v).low v = num v := by
    rw [low_discover, if_pos rfl, h.id, hnum]
  have hlinks {e : INode × INode} (he : e ∈ links) := hw.log e (h.links_log he)
  constructor
  case id =>
    have hlength : (w.advance (.enter v)).order.length = w.order.length + 1 := List.length_append
    rw [hlength, ← h.id]
    rfl
  case ids =>
    refine forall_mem_order_enter.mpr ⟨?_, ?_⟩
    . intro x hx
      rw [get?_ids_discover, if_neg (hne hx), h.ids x hx]
    . rw [get?_ids_discover, if_pos rfl, hnum, h.id]
  case lows =>
    refine forall_mem_order_enter.mpr ⟨?_, ?_⟩
    . intro x hx
      rw [get?_lowLinkValues_discover, if_neg (hne hx), hlow hx, h.lows x hx]
    . rw [get?_lowLinkValues_discover, if_pos rfl, hlowSelf, hnum, h.id]
  case stack =>
    intro x hx
    rw [mem_stack_discover] at hx
    rw [mem_order_enter]
    cases hx with
    | inl heq => exact Or.inr heq
    | inr hx => exact Or.inl (h.stack x hx)
  case sorted =>
    apply List.Pairwise.cons _ h.sorted
    intro x hx
    rw [hnum]
    exact hw.num_lt x (h.stack x hx)
  case frames =>
    intro u hu
    rw [mem_frames_enter] at hu
    rw [mem_stack_discover]
    exact hu.imp_right (h.frames u)
  case sub => exact h.sub
  case kept =>
    have hsame : ((w.advance (.enter v)).log.filter fun e => e.2 ∈ (s.discover v).stack)
        = w.log.filter fun e => e.2 ∈ s.stack := by
      apply List.filter_congr
      intro e he
      have := (hne (hw.log e he).2.1).symm
      simp [discover, this]
    rw [hsame]
    exact h.kept
  case attained =>
    refine forall_mem_order_enter.mpr ⟨?_, ?_⟩
    . intro x hx
      have ⟨y, hy, heq, hr⟩ := h.attained x hx
      exact ⟨y, mem_order_enter.mpr (Or.inl hy), (hlow hx).trans heq, hr⟩
    . exact ⟨v, mem_order_enter.mpr (Or.inr rfl), hlowSelf, Returns.refl links v⟩
  case low_le =>
    refine forall_mem_order_enter.mpr ⟨?_, ?_⟩
    . intro x hx y hr
      rw [hlow hx]
      exact h.low_le x hx y hr
    . intro y hr
      rw [← hr.eq_of_not_source fun e he => (hne (hlinks he).1).symm, hlowSelf]
  case tree =>
    intro e he hlink
    have ⟨hsource, htarget, _⟩ := hlinks hlink
    rw [hlow hsource, hlow htarget]
    rw [mem_tree_enter] at he
    cases he with
    | inl hentered =>
      have ⟨p, _, heq⟩ := hentered
      rw [heq] at htarget
      contradiction
    | inr he => exact h.tree e he hlink
  case popped =>
    intro scc hscc x hx
    have ⟨horder, hstack⟩ := h.popped scc hscc x hx
    rw [mem_order_enter, mem_stack_discover, not_or]
    exact ⟨Or.inl horder, (hne horder).symm, hstack⟩

theorem good_enter (hw : w.Inv children num) (h : Tracks num w links s)
    (hgood : Good children num w links s) (hnew : v ∉ w.order)
    : Good children num (w.advance (.enter v)) links (s.discover v) := by
  have hne {x : INode} (hx : x ∈ w.order) : v ≠ x := (ne_of_mem_of_not_mem hx hnew).symm
  have hdone {x : INode} (hx : x ∈ (w.advance (.enter v)).order) (hstack : x ∉ (s.discover v).stack)
      : x ∈ w.order ∧ x ∉ s.stack := by
    rw [mem_order_enter] at hx
    rw [mem_stack_discover, not_or] at hstack
    exact ⟨hx.resolve_right hstack.1, hstack.2⟩
  constructor
  case linked =>
    intro e he hsource
    have hmem := (hw.log e (h.links_log he)).1
    rw [mem_stack_discover] at hsource ⊢
    cases hsource with
    | inl heq => exact absurd heq.symm (hne hmem)
    | inr hsource => exact Or.inr (hgood.linked e he hsource)
  case waiting =>
    intro x hx hleft
    rw [mem_frames_enter, not_or] at hleft
    rw [mem_stack_discover] at hx
    have hx := hx.resolve_left hleft.1
    rw [low_discover_of_ne s (hne (h.stack x hx))]
    exact hgood.waiting x hx hleft.2
  case closed =>
    intro x hx hstack c hc
    have ⟨hx, hstack⟩ := hdone hx hstack
    have ⟨horder, hc⟩ := hgood.closed x hx hstack c hc
    rw [mem_order_enter, mem_stack_discover, not_or]
    exact ⟨Or.inl horder, (hne horder).symm, hc⟩
  case once =>
    intro x hx hstack
    have ⟨hx, hstack⟩ := hdone hx hstack
    exact hgood.once x hx hstack
  case classes => exact hgood.classes
  case returns =>
    intro x hx hstack
    have ⟨hx, hstack⟩ := hdone hx hstack
    exact hgood.returns x hx hstack

theorem stuck_enter (h : Tracks num w links s) (hstuck : IsStuck children num w s) (hnew : v ∉ w.order)
    : IsStuck children num (w.advance (.enter v)) (s.discover v) := by
  obtain ⟨y, r, z, hstuck⟩ := hstuck
  have hne {x : INode} (hx : x ∈ w.order) : v ≠ x := (ne_of_mem_of_not_mem hx hnew).symm
  have hy := h.stack y hstuck.stack
  refine ⟨y, r, z, List.mem_cons_of_mem v hstuck.stack, ?_, ?_, ?_, ?_, hstuck.same, hstuck.first, hstuck.lost⟩
  . rw [mem_frames_enter, not_or]
    exact ⟨(hne hy).symm, hstuck.left⟩
  . rw [low_discover_of_ne s (hne hy)]
    exact hstuck.low
  . exact mem_order_enter.mpr (Or.inl hstuck.order)
  . rw [mem_frames_enter, not_or]
    exact ⟨(hne hstuck.order).symm, hstuck.leftAlso⟩

structure Linked (w : Walk INode) (links links' : List (INode × INode)) (s s' : ComponentSearch)
    (u c : INode) : Prop where
  same : s' = { s with lowLinkValues := s'.lowLinkValues }
  lows : ∀ x ∈ w.order, s'.lowLinkValues.get? x = some (s'.low x)
  low : ∀ x, s'.low x = if x = u ∧ c ∈ s.stack then min (s.low c) (s.low u) else s.low x
  links : links' = if c ∈ s.stack then (u, c) :: links else links

theorem linked_linkChild (h : Tracks num w links s) {u c : INode} (hu : u ∈ w.order)
    : ∃ s' links', s.linkChild u c = .ok s' ∧ Linked w links links' s s' u c := by
  by_cases hc : c ∈ s.stack
  . refine ⟨{ s with lowLinkValues := s.lowLinkValues.set u (min (s.low c) (s.low u)) }, (u, c) :: links,
      ?_, rfl, ?_, ?_, ?_⟩
    . unfold linkChild
      rw [if_pos hc, h.lows c (h.stack c hc), h.lows u hu]
    . intro x hx
      unfold low
      rw [OrderedMap.get?_set]
      split
      . rfl
      . exact h.lows x hx
    . intro x
      by_cases hx : x = u
      . rw [if_pos ⟨hx, hc⟩, hx]
        simp [low]
      . rw [if_neg (by simp [hx])]
        unfold low
        rw [OrderedMap.get?_set_ne _ _ (Ne.symm hx)]
    . rw [if_pos hc]
  . refine ⟨s, links, ?_, rfl, h.lows, ?_, ?_⟩
    . unfold linkChild
      rw [if_neg hc]
    . intro x
      rw [if_neg (by simp [hc])]
    . rw [if_neg hc]

section Edge

variable {links' : List (INode × INode)} {s' : ComponentSearch} {u c : INode}

variable {x y : INode} {e : INode × INode}

section

variable (hl : Linked w links links' s s' u c)

include hl

theorem Linked.low_ne (hx : x ≠ u) : s'.low x = s.low x := by
  rw [hl.low, if_neg]
  intro h
  exact hx h.1

theorem Linked.low_le (x : INode) : s'.low x ≤ s.low x := by
  rw [hl.low]
  split
  . next h =>
    rw [h.1]
    exact Nat.min_le_right _ _
  . exact Nat.le_refl _

theorem Linked.mem_links : e ∈ links' ↔ (e = (u, c) ∧ c ∈ s.stack) ∨ e ∈ links := by
  rw [hl.links]
  split
  . next hc => simp [hc]
  . next hc => simp [hc]

theorem Linked.returns
    : Returns links' x y
      ↔ Returns links x y ∨ (x = u ∧ c ∈ s.stack ∧ Returns links c y) := by
  rw [hl.links]
  split
  . next hc => simp [Returns, hc]
  . next hc => simp [hc]

theorem Linked.attained (h : Tracks num w links s) (hc : c ∈ w.order)
    (hx : x ∈ w.order)
    : ∃ y ∈ w.order, s'.low x = num y ∧ Returns links' x y := by
  by_cases hmin : (x = u ∧ c ∈ s.stack) ∧ s.low c < s.low u
  . have ⟨y, hy, heq, hr⟩ := h.attained c hc
    refine ⟨y, hy, ?_, hl.returns.mpr (Or.inr ⟨hmin.1.1, hmin.1.2, hr⟩)⟩
    rw [hl.low, if_pos hmin.1, ← heq]
    omega
  . have ⟨y, hy, heq, hr⟩ := h.attained x hx
    refine ⟨y, hy, ?_, hl.returns.mpr (Or.inl hr)⟩
    rw [hl.low, ← heq]
    split
    . next hboth =>
      have : ¬s.low c < s.low u := by
        intro hlt
        exact hmin ⟨hboth, hlt⟩
      rw [hboth.1]
      omega
    . rfl

theorem Linked.links_log (h : Tracks num w links s) (he : e ∈ links')
    : e ∈ (w.advance (.edge u c)).log := by
  rw [hl.mem_links] at he
  cases he with
  | inl hnew =>
    rw [hnew.1]
    exact List.mem_cons_self
  | inr hold => exact List.mem_cons_of_mem _ (h.links_log hold)

end

theorem tracks_edge (hw : w.Inv children num) (h : Tracks num w links s)
    (hlegal : Legal children w (.edge u c)) (hl : Linked w links links' s s' u c)
    : Tracks num (w.advance (.edge u c)) links' s' := by
  have ⟨hhead, hc, _⟩ := hlegal
  have hframe := List.mem_of_mem_head? hhead
  have hpending := (hw.edge hlegal).pending
  rw [hl.same]
  refine { h with
    lows := hl.lows, attained := fun _ => hl.attained h hc, sub := ?sub, kept := ?kept, low_le := ?low_le,
    tree := ?tree }
  case sub =>
    rw [hl.links]
    split
    . exact h.sub.cons_cons (u, c)
    . exact h.sub.cons (u, c)
  case kept =>
    rw [hl.links]
    unfold advance
    rw [List.filter_cons]
    by_cases hstack : c ∈ s.stack
    . rw [if_pos (by simpa using hstack), if_pos hstack]
      exact h.kept.cons_cons (u, c)
    . rw [if_neg (by simpa using hstack), if_neg hstack]
      exact h.kept
  case low_le =>
    intro x hx y hr
    rw [hl.returns] at hr
    cases hr with
    | inl hr => exact Nat.le_trans (hl.low_le x) (h.low_le x hx y hr)
    | inr hr =>
      have ⟨heq, hstack, hr⟩ := hr
      have := h.low_le c hc y hr
      apply Nat.le_trans (Nat.le_of_eq (hl.low x))
      rw [if_pos ⟨heq, hstack⟩]
      omega
  case tree =>
    intro e he hlink
    have htarget : e.2 ≠ u := by
      intro heq
      apply hpending e he
      . rw [heq]
        exact hframe
      . exact hl.links_log h hlink
    change s'.low e.1 ≤ s'.low e.2
    rw [hl.low_ne htarget]
    rw [hl.mem_links] at hlink
    cases hlink with
    | inl hnew =>
      rw [hnew.1]
      dsimp only
      rw [hl.low, if_pos ⟨rfl, hnew.2⟩]
      omega
    | inr hold => exact Nat.le_trans (hl.low_le e.1) (h.tree e he hold)

theorem good_edge (hgood : Good children num w links s) (hhead : w.frames.head? = some u)
    (hl : Linked w links links' s s' u c)
    : Good children num (w.advance (.edge u c)) links' s' := by
  rw [hl.same]
  refine { hgood with linked := ?linked, waiting := ?waiting, returns := ?returns }
  case linked =>
    intro e he hsource
    rw [hl.mem_links] at he
    cases he with
    | inl hnew =>
      rw [hnew.1]
      exact hnew.2
    | inr hold => exact hgood.linked e hold hsource
  case waiting =>
    intro x hx hleft
    have hne : x ≠ u := (ne_of_mem_of_not_mem (List.mem_of_mem_head? hhead) hleft).symm
    exact (hl.low_ne hne).trans_lt (hgood.waiting x hx hleft)
  case returns =>
    intro x hx hstack r hsame hfirst
    exact Or.inl (hgood.returns x hx hstack r hsame hfirst)

theorem stuck_edge (hstuck : IsStuck children num w s) (hhead : w.frames.head? = some u)
    (hl : Linked w links links' s s' u c)
    : IsStuck children num (w.advance (.edge u c)) s' := by
  obtain ⟨y, r, z, hstuck⟩ := hstuck
  have hne : y ≠ u := (ne_of_mem_of_not_mem (List.mem_of_mem_head? hhead) hstuck.left).symm
  rw [hl.same]
  refine ⟨y, r, z, { hstuck with low := (hl.low_ne hne).trans hstuck.low, lost := ?_ }⟩
  intro hr
  apply hstuck.lost
  exact (Returns.cons_of_ne hne).mp hr

end Edge

end

end ComponentSearch

end DirectedGraph
end N8n
