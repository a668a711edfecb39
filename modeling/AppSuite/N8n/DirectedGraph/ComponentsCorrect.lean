import AppSuite.N8n.DirectedGraph.ComponentsInvariant

/-!
This module contains which graphs the search for components is correct for.
-/

namespace N8n

open List OrderedSet Relation.ReflTransGen
namespace DirectedGraph

open DepthFirst

namespace ComponentSearch

section

variable {children : INode → List INode} {num : INode → Nat} {w : Walk INode}
  {links : List (INode × INode)} {s : ComponentSearch}

section Leave

theorem mem_takeWhile_of_pairwise {α : Type} {l : List α} {p : α → Bool}
    (h : l.Pairwise fun a b => p b = true → p a = true) {y : α}
    : y ∈ l.takeWhile p ↔ y ∈ l ∧ p y = true := by
  apply Iff.intro
  . intro hy
    exact ⟨(takeWhile_sublist p).mem hy, mem_takeWhile_imp hy⟩
  . intro hy
    induction h with
    | nil => simp at hy
    | @cons x xs hfirst _ ih =>
      have hx : p x = true := by
        cases mem_cons.mp hy.1 with
        | inl heq => exact heq ▸ hy.2
        | inr hmem => exact hfirst y hmem hy.2
      rw [takeWhile_cons, if_pos hx, mem_cons]
      exact (mem_cons.mp hy.1).imp_right fun hmem => ih ⟨hmem, hy.2⟩

variable {s' : ComponentSearch} {u : INode}

variable (lowLinkValues : OrderedMap INode Nat) (ownId : Nat) (stack : List INode)
  (scc : OrderedSet INode)

theorem popComponent_stack
    : (popComponent lowLinkValues ownId stack scc).1
      = stack.dropWhile fun y => lowLinkValues.get? y = some ownId := by
  induction stack generalizing scc with
  | nil => rfl
  | cons next stack ih =>
    unfold popComponent
    rw [dropWhile_cons]
    split
    . next h => rw [if_pos (by simpa using h), ih]
    . next h => rw [if_neg (by simpa using h)]

theorem mem_popComponent (y : INode)
    : y ∈ (popComponent lowLinkValues ownId stack scc).2.elems
      ↔ y ∈ scc.elems ∨ y ∈ stack.takeWhile fun y => lowLinkValues.get? y = some ownId := by
  induction stack generalizing scc with
  | nil => simp [popComponent]
  | cons next stack ih =>
    unfold popComponent
    rw [takeWhile_cons]
    split
    . next h =>
      rw [if_pos (by simpa using h), ih, mem_add, mem_cons]
      tauto
    . next h =>
      rw [if_neg (by simpa using h)]
      simp

structure Popped (num : INode → Nat) (s s' : ComponentSearch) (u : INode) : Prop where
  same : s' = { s with
    stack := s'.stack
    stronglyConnectedComponents := s'.stronglyConnectedComponents }
  stack : s'.stack = s.stack.dropWhile fun y => s.lowLinkValues.get? y = some (num u)
  components : ∃ scc : OrderedSet INode,
    (∀ y, y ∈ scc.elems ↔ y ∈ s.stack.takeWhile fun y => s.lowLinkValues.get? y = some (num u))
      ∧ s'.stronglyConnectedComponents
          = if scc.size > 0 then
              s.stronglyConnectedComponents ++ [scc]
            else
              s.stronglyConnectedComponents

theorem finish_ok (h : Tracks num w links s) (hu : u ∈ w.order)
    : ∃ s', s.finish u = .ok s'
      ∧ ((s.low u ≠ num u ∧ s' = s) ∨ (s.low u = num u ∧ Popped num s s' u)) := by
  unfold finish
  rw [h.ids u hu, h.lows u hu]
  dsimp only
  split
  . next heq =>
    refine ⟨_, rfl, Or.inr ⟨heq.symm, rfl, ?_, ?_⟩⟩
    . apply popComponent_stack
    . refine ⟨(popComponent s.lowLinkValues (num u) s.stack .empty).2, ?_, rfl⟩
      intro y
      rw [mem_popComponent]
      simp [OrderedSet.empty]
  . next hne => exact ⟨s, rfl, Or.inl ⟨fun heq => hne heq.symm, rfl⟩⟩

section

variable (hp : Popped num s s' u)

include hp

theorem Popped.low (x : INode) : s'.low x = s.low x := by
  rw [hp.same]
  rfl

theorem Popped.sublist : s'.stack.Sublist s.stack := by
  rw [hp.stack]
  apply dropWhile_sublist

theorem Popped.split
    : (s.stack.takeWhile fun y => s.lowLinkValues.get? y = some (num u)) ++ s'.stack = s.stack := by
  rw [hp.stack]
  apply takeWhile_append_dropWhile

variable (h : Tracks num w links s)

include h

theorem Popped.disjoint (hx : x ∈ s.stack.takeWhile fun y => s.lowLinkValues.get? y = some (num u))
    : x ∉ s'.stack := by
  have hnodup := h.nodup
  rw [← hp.split, nodup_append'] at hnodup
  exact hnodup.2.2 hx

theorem Popped.stays {x : INode} (hx : x ∈ s.stack) (hlow : s.low x ≠ num u) : x ∈ s'.stack := by
  have horder := h.stack x hx
  rw [← hp.split, mem_append] at hx
  apply hx.resolve_left
  intro htaken
  have htest := mem_takeWhile_imp htaken
  rw [decide_eq_true_eq, h.lows x horder] at htest
  injection htest with htest
  contradiction

theorem Popped.components_cases {scc : OrderedSet INode} (hscc : scc ∈ s'.stronglyConnectedComponents)
    : scc ∈ s.stronglyConnectedComponents ∨ ∀ y ∈ scc.elems, y ∈ s.stack ∧ y ∉ s'.stack := by
  have ⟨popped, hmem, hcomponents⟩ := hp.components
  rw [hcomponents] at hscc
  split at hscc
  . rw [mem_append, mem_singleton] at hscc
    cases hscc with
    | inl hold => exact Or.inl hold
    | inr heq =>
      right
      intro y hy
      rw [heq, hmem] at hy
      exact ⟨(takeWhile_sublist _).mem hy, hp.disjoint h hy⟩
  . exact Or.inl hscc

end

theorem tracks_pop (hw : w.Inv children num) (h : Tracks num w links s)
    (hhead : w.frames.head? = some u) (hp : Popped num s s' u)
    : Tracks num (w.advance (.leave u)) links s' := by
  have hsub := hp.sublist
  rw [hp.same]
  refine { h with
    sorted := h.sorted.sublist hsub, stack := ?stack, frames := ?frames, kept := ?kept, popped := ?popped }
  case stack =>
    intro x hx
    exact h.stack x (hsub.mem hx)
  case frames =>
    intro x hx
    have hframe : x ∈ w.frames := mem_of_mem_tail hx
    apply hp.stays h (h.frames x hframe)
    have hle := h.low_le_num (hw.frames x hframe)
    have hlt : num x < num u := by
      have hnested := hw.nested
      rw [frames_eq_cons hhead, pairwise_cons] at hnested
      exact hnested.1 x hx
    omega
  case kept =>
    apply List.Sublist.trans _ h.kept
    apply monotone_filter_right
    intro e he
    rw [decide_eq_true_eq] at he ⊢
    exact hsub.mem he
  case popped =>
    intro scc hscc x hx
    cases hp.components_cases h hscc with
    | inl hold =>
      have ⟨horder, hstack⟩ := h.popped scc hold x hx
      exact ⟨horder, fun hmem => hstack (hsub.mem hmem)⟩
    | inr hnew =>
      have ⟨hstack, hgone⟩ := hnew x hx
      exact ⟨h.stack x hstack, hgone⟩

theorem tracks_leave (h : Tracks num w links s) : Tracks num (w.advance (.leave u)) links s :=
  { h with
    frames := fun x hx => h.frames x (mem_of_mem_tail hx) }

structure Root (children : INode → List INode) (num : INode → Nat) (w : Walk INode)
    (links : List (INode × INode)) (s : ComponentSearch) (u : INode) : Prop where
  inv : w.Inv children num
  tracks : Tracks num w links s
  good : Good children num w links s
  head : w.frames.head? = some u
  logged : ∀ c ∈ children u, (u, c) ∈ w.log
  low : s.low u = num u

namespace Root

variable (h : Root children num w links s u) {y x : INode}

include h

theorem frame : u ∈ w.frames := mem_of_mem_head? h.head

theorem mem_stack : u ∈ s.stack := h.tracks.frames u h.frame

theorem mem_order : u ∈ w.order := h.inv.frames u h.frame

theorem eq_of_num (hy : y ∈ w.order) (heq : num y = num u) : y = u :=
  h.inv.num_inj y hy u h.mem_order heq

theorem not_frame (hlt : num u < num y) : y ∉ w.frames := by
  intro hframe
  have := h.inv.num_le_head h.head hframe
  omega

theorem edge_logged (hy : y ∈ w.order) (hle : num u ≤ num y)
    (hc : c ∈ children y)
    : (y, c) ∈ w.log := by
  cases Nat.lt_or_eq_of_le hle with
  | inl hlt => exact h.inv.left y hy (h.not_frame hlt) c hc
  | inr heq =>
    rw [h.eq_of_num hy heq.symm] at hc ⊢
    exact h.logged c hc

theorem le_low (hy : y ∈ s.stack) (hle : num u ≤ num y) : num u ≤ s.low y := by
  have horder := h.tracks.stack y hy
  induction hn : num y using Nat.strong_induction_on generalizing y with
  | _ n ih =>
    cases Nat.lt_or_eq_of_le hle with
    | inl hlt =>
      have ⟨p, hp, hup⟩ := h.inv.under u h.frame y horder hlt
      have ⟨hpOrder, _, hedge, hpy⟩ := h.inv.tree (p, y) hp
      dsimp only at hpOrder hedge hpy
      have hpStack : p ∈ s.stack := by
        by_contra hdone
        exact (h.good.closed p hpOrder hdone y hedge).2 hy
      have hlink := h.tracks.mem_links (h.edge_logged hpOrder hup hedge) hy
      have hhanded := h.tracks.tree (p, y) hp hlink
      dsimp only at hhanded
      have := ih (num p) (by omega) hpStack hup hpOrder rfl
      omega
    | inr heq =>
      rw [h.eq_of_num horder heq.symm, h.low]

theorem closed (hy : y ∈ w.order ∧ (y ∈ s.stack → num u ≤ num y))
    (hc : c ∈ children y)
    : c ∈ w.order ∧ (c ∈ s.stack → num u ≤ num c) := by
  by_cases hstack : y ∈ s.stack
  . have hle := hy.2 hstack
    have hlog := h.edge_logged hy.1 hle hc
    refine ⟨(h.inv.log _ hlog).2.1, ?_⟩
    intro hcStack
    have hlow := h.tracks.low_le y hy.1 c (Returns.single (h.tracks.mem_links hlog hcStack))
    exact Nat.le_trans (h.le_low hstack hle) hlow
  . have ⟨horder, hdone⟩ := h.good.closed y hy.1 hstack c hc
    exact ⟨horder, fun hcStack => absurd hcStack hdone⟩

theorem not_reach_of_done (hy : y ∈ w.order) (hdone : y ∉ s.stack) : ¬Reach children y u := by
  intro hreach
  have hclosed x (hx : x ∈ w.order ∧ x ∉ s.stack) := h.good.closed x hx.1 hx.2
  exact (Reach.closed hclosed hreach ⟨hy, hdone⟩).2 h.mem_stack

theorem reach_back (hy : y ∈ s.stack) (hle : num u ≤ num y) : Reach children y u := by
  have horder := h.tracks.stack y hy
  induction hn : num y using Nat.strong_induction_on generalizing y with
  | _ n ih =>
    cases Nat.lt_or_eq_of_le hle with
    | inl hlt =>
      have hbelow := h.good.waiting y hy (h.not_frame hlt)
      have ⟨z, hz, heq, hr⟩ := h.tracks.attained y horder
      have hzStack : z ∈ s.stack := hr.closed h.good.linked hy
      have hzle := h.le_low hy hle
      have hedges : ∀ e ∈ links, e.2 ∈ children e.1 := by
        intro e he
        exact (h.inv.log e (h.tracks.links_log he)).2.2
      apply trans (hr.reach hedges)
      exact ih (num z) (by omega) hzStack (by omega) hz rfl
    | inr heq =>
      rw [h.eq_of_num horder heq.symm]
      exact refl

theorem mutual_iff (y : INode) : Mutual children u y ↔ y ∈ s.stack ∧ num u ≤ num y := by
  apply Iff.intro
  . intro hmutual
    have hy := Reach.closed (fun _ hx _ => h.closed hx) hmutual.1 ⟨h.mem_order, fun _ => Nat.le_refl _⟩
    have hstack : y ∈ s.stack := by
      by_contra hdone
      exact h.not_reach_of_done hy.1 hdone hmutual.2
    exact ⟨hstack, hy.2 hstack⟩
  . intro hy
    exact ⟨h.inv.reach h.frame (h.tracks.stack y hy.1) hy.2, h.reach_back hy.1 hy.2⟩

theorem stuck (hp : Popped num s s' u) (hy : y ∈ s.stack)
    (hle : num u ≤ num y) (hlow : s.low y ≠ num u)
    : IsStuck children num (w.advance (.leave u)) s' := by
  have horder := h.tracks.stack y hy
  have hgt : num u < s.low y := by
    have := h.le_low hy hle
    omega
  have hyu : num u < num y := by
    have := h.tracks.low_le_num horder
    omega
  have ⟨z, hz, heq, _⟩ := h.tracks.attained y horder
  have hmutual := (h.mutual_iff y).mpr ⟨hy, hle⟩
  have hframe {x : INode} (hx : num u < num x) : x ∉ (w.advance (.leave u)).frames := by
    intro hmem
    exact h.not_frame hx (mem_of_mem_tail hmem)
  refine ⟨y, u, z, hp.stays h.tracks hy hlow, hframe hyu, ?_, hz, hframe (by omega), hmutual.symm, ?_, ?_⟩
  . rw [hp.low]
    exact heq
  . intro x hx
    exact ((h.mutual_iff x).mp (hmutual.trans hx)).2
  . intro hr
    have hpath : ∀ e ∈ w.log, Returns w.log e.2 u → decide (e.2 ∈ s.stack) = true := by
      intro e he hret
      rw [decide_eq_true_eq]
      by_contra hdone
      apply h.not_reach_of_done (h.inv.log e he).2.1 hdone
      apply hret.reach
      intro e' he'
      exact (h.inv.log e' he').2.2
    have hlinks := (hr.filter hpath).mono h.tracks.kept
    have := h.tracks.low_le y horder u hlinks
    omega

theorem countP_of_mutual (hmutual : Mutual children u x)
    : s.stronglyConnectedComponents.countP (·.has x) = 0 := by
  rw [countP_eq_zero]
  intro scc hscc hmem
  rw [has_iff] at hmem
  exact (h.tracks.popped scc hscc x hmem).2 ((h.mutual_iff x).mp hmutual).1

variable (hall : ∀ y ∈ s.stack, num u ≤ num y → s.low y = num u)

include hall

theorem mem_popped (y : INode)
    : y ∈ (s.stack.takeWhile fun y => s.lowLinkValues.get? y = some (num u))
      ↔ y ∈ s.stack ∧ num u ≤ num y := by
  have htest {x : INode} (hx : x ∈ s.stack)
      : decide (s.lowLinkValues.get? x = some (num u)) = true ↔ num u ≤ num x := by
    have horder := h.tracks.stack x hx
    rw [decide_eq_true_eq, h.tracks.lows x horder, Option.some.injEq]
    apply Iff.intro
    . intro heq
      rw [← heq]
      exact h.tracks.low_le_num horder
    . exact hall x hx
  rw [mem_takeWhile_of_pairwise]
  . apply and_congr_right
    exact htest
  . apply h.tracks.sorted.imp_of_mem
    intro a b ha hb hlt
    rw [htest ha, htest hb]
    omega

theorem returns_of_mutual (hmutual : Mutual children u x) : Returns w.log x u := by
  have ⟨hstack, hle⟩ := (h.mutual_iff x).mp hmutual
  have ⟨y, hy, heq, hreturns⟩ := h.tracks.attained x (h.tracks.stack x hstack)
  rw [hall x hstack hle] at heq
  rw [h.eq_of_num hy heq.symm] at hreturns
  exact hreturns.mono h.tracks.sub

variable (hp : Popped num s s' u)

include hp

theorem mem_rest (y : INode) : y ∈ s'.stack ↔ y ∈ s.stack ∧ num y < num u := by
  apply Iff.intro
  . intro hy
    have hstack := hp.sublist.mem hy
    refine ⟨hstack, ?_⟩
    apply Nat.lt_of_not_le
    intro hle
    exact hp.disjoint h.tracks ((h.mem_popped hall y).mpr ⟨hstack, hle⟩) hy
  . intro hy
    apply hp.stays h.tracks hy.1
    have := h.tracks.low_le_num (h.tracks.stack y hy.1)
    omega

theorem component
    : ∃ scc : OrderedSet INode, (∀ y, y ∈ scc.elems ↔ Mutual children u y)
      ∧ s'.stronglyConnectedComponents = s.stronglyConnectedComponents ++ [scc] := by
  have ⟨scc, hmem, hcomponents⟩ := hp.components
  have hscc (y : INode) : y ∈ scc.elems ↔ Mutual children u y := by
    rw [hmem, h.mem_popped hall, h.mutual_iff]
  refine ⟨scc, hscc, ?_⟩
  rw [hcomponents, if_pos]
  apply Nat.pos_of_ne_zero
  exact size_ne_zero_of_mem ((hscc u).mpr (Mutual.refl u))

theorem left_or_mutual (hx : x ∉ s'.stack) : x ∉ s.stack ∨ Mutual children u x := by
  by_cases hstack : x ∈ s.stack
  . right
    rw [h.mutual_iff]
    rw [h.mem_rest hall hp] at hx
    refine ⟨hstack, ?_⟩
    apply Nat.le_of_not_lt
    intro hlt
    exact hx ⟨hstack, hlt⟩
  . exact Or.inl hstack

theorem good_pop : Good children num (w.advance (.leave u)) links s' := by
  have hrest := h.mem_rest hall hp
  have ⟨scc, hscc, hcomponents⟩ := h.component hall hp
  constructor
  case linked =>
    intro e he hsource
    rw [hrest] at hsource ⊢
    exact ⟨h.good.linked e he hsource.1, h.inv.before u h.frame e (h.tracks.links_log he) hsource.2⟩
  case waiting =>
    intro x hx hleft
    rw [hrest] at hx
    rw [hp.low]
    apply h.good.waiting x hx.1
    rw [frames_eq_cons h.head, mem_cons, not_or]
    refine ⟨?_, hleft⟩
    intro heq
    rw [heq] at hx
    omega
  case closed =>
    intro x hx hstack c hc
    rw [hrest]
    cases h.left_or_mutual hall hp hstack with
    | inl hold =>
      have ⟨horder, hcStack⟩ := h.good.closed x hx hold c hc
      exact ⟨horder, fun hmem => hcStack hmem.1⟩
    | inr hmutual =>
      have ⟨hxStack, hle⟩ := (h.mutual_iff x).mp hmutual
      have ⟨horder, hcle⟩ := h.closed ⟨hx, fun _ => hle⟩ hc
      refine ⟨horder, ?_⟩
      intro hmem
      have := hcle hmem.1
      omega
  case once =>
    intro x hx hstack
    rw [hcomponents, countP_append, countP_singleton]
    cases h.left_or_mutual hall hp hstack with
    | inl hold =>
      have hnot : ¬scc.has x = true := by
        rw [has_iff, hscc, h.mutual_iff]
        exact fun hmem => hold hmem.1
      rw [h.good.once x hx hold, if_neg hnot]
    | inr hmutual =>
      rw [h.countP_of_mutual hmutual, if_pos (has_iff.mpr ((hscc x).mpr hmutual))]
  case classes =>
    rw [hcomponents]
    intro scc' hscc'
    rw [mem_append, mem_singleton] at hscc'
    cases hscc' with
    | inl hold => exact h.good.classes scc' hold
    | inr heq =>
      rw [heq]
      refine ⟨ne_nil_of_mem ((hscc u).mpr (Mutual.refl u)), ?_⟩
      intro x hx y
      rw [hscc] at hx ⊢
      exact ⟨fun hy => hx.symm.trans hy, fun hy => hx.trans hy⟩
  case returns =>
    intro x hx hstack r hsame hfirst
    cases h.left_or_mutual hall hp hstack with
    | inl hold => exact h.good.returns x hx hold r hsame hfirst
    | inr hmutual =>
      have ⟨hstack, hle⟩ := (h.mutual_iff r).mp (hmutual.trans hsame)
      have hru : num r ≤ num u := hfirst u hmutual.symm
      rw [h.eq_of_num (h.tracks.stack r hstack) (by omega)]
      exact h.returns_of_mutual hall hmutual

end Root

theorem good_leave (h : Tracks num w links s) (hgood : Good children num w links s)
    (hu : u ∈ w.order) (hhead : w.frames.head? = some u) (hlow : s.low u ≠ num u)
    : Good children num (w.advance (.leave u)) links s := by
  refine { hgood with waiting := ?_ }
  intro x hx hleft
  by_cases heq : x = u
  . have := h.low_le_num hu
    rw [heq]
    omega
  . apply hgood.waiting x hx
    rw [frames_eq_cons hhead, mem_cons, not_or]
    exact ⟨heq, hleft⟩

theorem stuck_leave {y r z : INode} (hstuck : Stuck children num w s y r z) (hy : y ∈ s'.stack)
    (hlow : s'.low y = s.low y)
    : Stuck children num (w.advance (.leave u)) s' y r z := by
  refine ⟨hy, ?_, hlow.trans hstuck.low, hstuck.order, ?_, hstuck.same, hstuck.first, hstuck.lost⟩
  . intro hmem
    exact hstuck.left (mem_of_mem_tail hmem)
  . intro hmem
    exact hstuck.leftAlso (mem_of_mem_tail hmem)

end Leave

def Inv (children : INode → List INode) (num : INode → Nat) (w : Walk INode) (s : ComponentSearch)
    : Prop :=
  w.Inv children num ∧ ∃ links, Tracks num w links s
    ∧ (Good children num w links s ∨ IsStuck children num w s)

theorem inv_enter (h : Inv children num w s) (hlegal : Legal children w (.enter v))
    (hnum : num v = w.order.length)
    : ∃ s', s.handle (.enter v) = .ok s' ∧ Inv children num (w.advance (.enter v)) s' := by
  have ⟨hw, links, htracks, hcases⟩ := h
  refine ⟨s.discover v, rfl, hw.enter hlegal hnum, links, tracks_enter hw htracks hlegal hnum, ?_⟩
  cases hcases with
  | inl hgood => exact Or.inl (good_enter hw htracks hgood hlegal.1)
  | inr hstuck => exact Or.inr (stuck_enter htracks hstuck hlegal.1)

theorem inv_edge {u c : INode} (h : Inv children num w s) (hlegal : Legal children w (.edge u c))
    : ∃ s', s.handle (.edge u c) = .ok s' ∧ Inv children num (w.advance (.edge u c)) s' := by
  have ⟨hw, links, htracks, hcases⟩ := h
  have hu := hw.frames u (mem_of_mem_head? hlegal.1)
  have ⟨s', links', hs', hlinked⟩ := linked_linkChild htracks hu (c := c)
  refine ⟨s', hs', hw.edge hlegal, links', tracks_edge hw htracks hlegal hlinked, ?_⟩
  cases hcases with
  | inl hgood => exact Or.inl (good_edge hgood hlegal.1 hlinked)
  | inr hstuck => exact Or.inr (stuck_edge hstuck hlegal.1 hlinked)

theorem inv_leave {u : INode} (h : Inv children num w s) (hlegal : Legal children w (.leave u))
    : ∃ s', s.handle (.leave u) = .ok s' ∧ Inv children num (w.advance (.leave u)) s' := by
  have ⟨hw, links, htracks, hcases⟩ := h
  have hframe := mem_of_mem_head? hlegal.1
  have hu := hw.frames u hframe
  have ⟨s', hs', hfinish⟩ := finish_ok htracks hu
  refine ⟨s', hs', hw.leave hlegal, links, ?_⟩
  cases hfinish with
  | inl hkept =>
    have ⟨hlow, heq⟩ := hkept
    subst heq
    refine ⟨tracks_leave htracks, ?_⟩
    cases hcases with
    | inl hgood => exact Or.inl (good_leave htracks hgood hu hlegal.1 hlow)
    | inr hstuck =>
      have ⟨y, r, z, hstuck⟩ := hstuck
      exact Or.inr ⟨y, r, z, stuck_leave hstuck hstuck.stack rfl⟩
  | inr hpopped =>
    have ⟨hlow, hpop⟩ := hpopped
    refine ⟨tracks_pop hw htracks hlegal.1 hpop, ?_⟩
    cases hcases with
    | inl hgood =>
      have hroot : Root children num w links s u := ⟨hw, htracks, hgood, hlegal.1, hlegal.2, hlow⟩
      by_cases hall : ∀ y ∈ s.stack, num u ≤ num y → s.low y = num u
      . exact Or.inl (hroot.good_pop hall hpop)
      . simp only [not_forall] at hall
        have ⟨y, hy, hle, hother⟩ := hall
        exact Or.inr (hroot.stuck hpop hy hle hother)
    | inr hstuck =>
      have ⟨y, r, z, hstuck⟩ := hstuck
      refine Or.inr ⟨y, r, z, stuck_leave hstuck ?_ (hpop.low y)⟩
      apply hpop.stays htracks hstuck.stack
      rw [hstuck.low]
      intro heq
      apply hstuck.leftAlso
      rw [hw.num_inj z hstuck.order u hu heq]
      assumption

theorem inv_handle (h : Inv children num w s) (hlegal : Legal children w event)
    (hnum : Numbered num w event)
    : ∃ s', s.handle event = .ok s' ∧ Inv children num (w.advance event) s' := by
  cases event with
  | enter v => exact inv_enter h hlegal hnum
  | edge u c => exact inv_edge h hlegal
  | leave u => exact inv_leave h hlegal

theorem inv_run (h : Inv children num w s)
    (halong : Run.Along Walk.advance (fun w e => Legal children w e ∧ Numbered num w e) w events)
    : ∃ s', events.foldlM handle s = .ok s' ∧ Inv children num (events.foldl Walk.advance w) s' := by
  induction events generalizing w s with
  | nil => exact ⟨s, rfl, h⟩
  | cons event events ih =>
    have ⟨mid, hmid, hinv⟩ := inv_handle h halong.1.1 halong.1.2
    have ⟨s', hs', hinv'⟩ := ih hinv halong.2
    refine ⟨s', ?_, hinv'⟩
    rw [ExceptFold.foldlM_cons_of_ok hmid]
    assumption

theorem inv_empty (children : INode → List INode) (num : INode → Nat)
    : Inv children num Walk.empty empty := by
  refine ⟨Walk.Inv.empty, [], ?_, Or.inl ?_⟩
  . constructor <;> simp [Walk.empty, empty]
  . constructor <;> simp [Walk.empty, empty]

end

end ComponentSearch

def discovery (g : DirectedGraph) : Walk INode :=
  (search g.children (g.nodes.values.length + 1) g.nodes.values []).1.foldl Walk.advance Walk.empty

structure AreComponents (g : DirectedGraph) (sccs : List (OrderedSet INode)) : Prop where
  once : ∀ node ∈ g.nodes.values, sccs.countP (·.has node) = 1
  same : ∀ a ∈ g.nodes.values, ∀ b ∈ g.nodes.values,
    (∃ scc ∈ sccs, a ∈ scc.elems ∧ b ∈ scc.elems) ↔ Mutual g.children a b
  nodes : ∀ scc ∈ sccs, scc.elems ≠ [] ∧ ∀ node ∈ scc.elems, node ∈ g.nodes.values

def ReturnsToFirst (g : DirectedGraph) : Prop :=
  ∀ node ∈ g.nodes.values, ∀ first, Mutual g.children node first →
    (∀ other, Mutual g.children node other →
      g.discovery.order.idxOf first ≤ g.discovery.order.idxOf other) →
    Returns g.discovery.log node first

section

variable {g : DirectedGraph}

theorem excursion_discovery (hclosed : g.Closed)
    : Excursion g.children g.nodes.values Walk.empty
        (search g.children (g.nodes.values.length + 1) g.nodes.values []).1
        (search g.children (g.nodes.values.length + 1) g.nodes.values []).2
      ∧ ∀ node ∈ g.nodes.values,
          node ∈ (search g.children (g.nodes.values.length + 1) g.nodes.values []).2 := by
  apply excursion_search (w := Walk.empty) _ (fun _ hv => hv) rfl
  . exact Nat.lt_succ_of_le (length_filter_le _ _)
  . intro v _ c hc
    exact mem_values_of_children hclosed hc

theorem mem_discovery_order (hclosed : g.Closed)
    : node ∈ g.discovery.order ↔ node ∈ g.nodes.values := by
  have ⟨hexc, hall⟩ := excursion_discovery hclosed
  unfold discovery
  rw [hexc.order]
  apply Iff.intro
  . intro h
    cases hexc.within node h with
    | inl hmem => contradiction
    | inr hmem => assumption
  . exact hall node

theorem discovery_frames (hclosed : g.Closed) : g.discovery.frames = [] :=
  (excursion_discovery hclosed).1.frames

theorem getStronglyConnectedComponents_ok (hclosed : g.Closed)
    : ∃ s, g.getStronglyConnectedComponents = .ok s.stronglyConnectedComponents
      ∧ ComponentSearch.Inv g.children g.discovery.order.idxOf g.discovery s := by
  have halong := along_numbered (excursion_discovery hclosed).1.legal rfl
  have ⟨s, hs, hinv⟩ := ComponentSearch.inv_run (ComponentSearch.inv_empty _ _) halong
  refine ⟨s, ?_, hinv⟩
  unfold getStronglyConnectedComponents
  rw [(follows_nodes hclosed _ (fun _ hnode => hnode) .empty).1]
  have hvisited : ComponentSearch.empty.visited.elems = [] := rfl
  rw [hvisited, hs]
  rfl

end

namespace ComponentSearch

variable {g : DirectedGraph} {num : INode → Nat} {links : List (INode × INode)} {s : ComponentSearch}

theorem stack_eq_nil {w : Walk INode} (h : Tracks num w links s)
    (hgood : Good g.children num w links s) (hframes : w.frames = [])
    : s.stack = [] := by
  rw [eq_nil_iff_forall_not_mem]
  intro x hx
  induction hn : num x using Nat.strong_induction_on generalizing x with
  | _ n ih =>
    have hlt := hgood.waiting x hx (by simp [hframes])
    have ⟨y, hy, heq, hr⟩ := h.attained x (h.stack x hx)
    exact ih (num y) (by omega) y (hr.closed hgood.linked hx) rfl

theorem exists_of_once {x : INode} (h : s.stronglyConnectedComponents.countP (·.has x) = 1)
    : ∃ scc ∈ s.stronglyConnectedComponents, x ∈ scc.elems := by
  have hpos : 0 < s.stronglyConnectedComponents.countP (·.has x) := by omega
  rw [countP_pos_iff] at hpos
  have ⟨scc, hscc, hx⟩ := hpos
  exact ⟨scc, hscc, has_iff.mp hx⟩

theorem areComponents_of_good (hclosed : g.Closed) (h : Tracks num g.discovery links s)
    (hgood : Good g.children num g.discovery links s)
    : AreComponents g s.stronglyConnectedComponents := by
  have hstack (x : INode) : x ∉ s.stack := by
    rw [stack_eq_nil h hgood (discovery_frames hclosed)]
    simp
  have honce : ∀ node ∈ g.nodes.values, s.stronglyConnectedComponents.countP (·.has node) = 1 := by
    intro node hnode
    exact hgood.once node ((mem_discovery_order hclosed).mpr hnode) (hstack node)
  refine ⟨honce, ?_, ?_⟩
  . intro a ha b _
    apply Iff.intro
    . intro hsame
      have ⟨scc, hscc, hmem, hmem'⟩ := hsame
      exact ((hgood.classes scc hscc).2 a hmem b).mp hmem'
    . intro hmutual
      have ⟨scc, hscc, hmem⟩ := exists_of_once (honce a ha)
      exact ⟨scc, hscc, hmem, ((hgood.classes scc hscc).2 a hmem b).mpr hmutual⟩
  . intro scc hscc
    refine ⟨(hgood.classes scc hscc).1, ?_⟩
    intro node hnode
    exact (mem_discovery_order hclosed).mp (h.popped scc hscc node hnode).1

end ComponentSearch

theorem areComponents_iff_returnsToFirst (g : DirectedGraph) (hclosed : g.Closed)
    : ∃ sccs, g.getStronglyConnectedComponents = .ok sccs
      ∧ (g.AreComponents sccs ↔ g.ReturnsToFirst) := by
  have ⟨s, hok, _, links, htracks, hcases⟩ := getStronglyConnectedComponents_ok hclosed
  refine ⟨s.stronglyConnectedComponents, hok, ?_⟩
  cases hcases with
  | inl hgood =>
    have hcomponents := ComponentSearch.areComponents_of_good hclosed htracks hgood
    have hreturns : g.ReturnsToFirst := by
      intro node hnode
      apply hgood.returns node ((mem_discovery_order hclosed).mpr hnode)
      rw [ComponentSearch.stack_eq_nil htracks hgood (discovery_frames hclosed)]
      simp
    exact ⟨fun _ => hreturns, fun _ => hcomponents⟩
  | inr hstuck =>
    have ⟨y, r, z, hstuck⟩ := hstuck
    have hy := (mem_discovery_order hclosed).mp (htracks.stack y hstuck.stack)
    apply Iff.intro
    . intro hcomponents
      have ⟨scc, hscc, hmem⟩ := ComponentSearch.exists_of_once (hcomponents.once y hy)
      exact absurd hstuck.stack (htracks.popped scc hscc y hmem).2
    . intro hreturns
      exact absurd (hreturns y hy r hstuck.same hstuck.first) hstuck.lost

def graphOf (nodes : List INode) (edges : List (INode × INode)) : DirectedGraph where
  nodes := nodes.foldl (fun m node => m.set node.name node) .empty
  connections := edges.foldl (fun m e => m.set (makeKey ⟨e.1, e.2, .main, 0, 0⟩) ⟨e.1, e.2, .main, 0, 0⟩)
    .empty

theorem closed_of_entries {g : DirectedGraph} (hnames : ∀ e ∈ g.nodes.entries, e.2.name = e.1)
    (hends : ∀ c ∈ g.connections.values, g.nodes.get? c.fromNode.name = some c.fromNode
      ∧ g.nodes.get? c.toNode.name = some c.toNode)
    : g.Closed := by
  refine ⟨?_, hends⟩
  intro name node h
  exact hnames (name, node) (OrderedMap.get?_eq_some_iff.mp h)

def node1 : INode := ⟨1, "Node1", "n8n-nodes-base.noOp", false, .object []⟩
def node2 : INode := ⟨2, "Node2", "n8n-nodes-base.noOp", false, .object []⟩
def node3 : INode := ⟨3, "Node3", "n8n-nodes-base.noOp", false, .object []⟩
def node4 : INode := ⟨4, "Node4", "n8n-nodes-base.noOp", false, .object []⟩

def cycleAndEnd : DirectedGraph :=
  graphOf [node1, node2, node3, node4]
    [(node1, node2), (node2, node3), (node3, node1), (node2, node4)]

theorem returnsToFirst_cycleAndEnd : cycleAndEnd.ReturnsToFirst := by
  have horder : cycleAndEnd.discovery.order = [node1, node2, node3, node4] := rfl
  have hreach {a b : INode} (h : b ∈ cycleAndEnd.children a) : Reach cycleAndEnd.children a b :=
    single h
  have h12 : Reach cycleAndEnd.children node1 node2 := hreach (by decide)
  have h23 : Reach cycleAndEnd.children node2 node3 := hreach (by decide)
  have h31 : Reach cycleAndEnd.children node3 node1 := hreach (by decide)
  intro node hnode first hmutual hfirst
  have hcycle (hnode1 : Mutual cycleAndEnd.children node node1) : first = node1 := by
    have hle := hfirst node1 hnode1
    rw [horder, idxOf_cons_self] at hle
    by_contra hne
    rw [idxOf_cons_ne _ (Ne.symm hne)] at hle
    omega
  have hcases : node ∈ [node1, node2, node3, node4] := hnode
  simp only [mem_cons, not_mem_nil, or_false] at hcases
  rcases hcases with heq | heq | heq | heq <;> subst heq
  . rw [hcycle (Mutual.refl node1)]
    decide
  . rw [hcycle ⟨h23.trans h31, h12⟩]
    decide
  . rw [hcycle ⟨h31, h12.trans h23⟩]
    decide
  . have hclosed : ∀ x, x = node4 → ∀ c ∈ cycleAndEnd.children x, c = node4 := by
      intro x hx
      rw [hx]
      decide
    rw [Reach.closed hclosed hmutual.1 rfl]
    decide

theorem areComponents_iff_returnsToFirst_cycleAndEnd
    : ∃ sccs, cycleAndEnd.getStronglyConnectedComponents = .ok sccs
      ∧ sccs.map (·.elems.map (·.name)) = [["Node4"], ["Node3", "Node2", "Node1"]]
      ∧ cycleAndEnd.AreComponents sccs := by
  have ⟨sccs, hok, hiff⟩ := areComponents_iff_returnsToFirst cycleAndEnd
    (closed_of_entries (by decide) (by decide))
  refine ⟨sccs, hok, ?_, hiff.mpr returnsToFirst_cycleAndEnd⟩
  have hnames : cycleAndEnd.getStronglyConnectedComponents.map
      (fun sccs => sccs.map (·.elems.map (·.name))) = .ok [["Node4"], ["Node3", "Node2", "Node1"]] := rfl
  rw [hok] at hnames
  injection hnames

def lateReturn : DirectedGraph :=
  graphOf [node1, node2, node3] [(node1, node2), (node2, node3), (node3, node2), (node2, node1)]

theorem not_areComponents_lateReturn
    : lateReturn.Closed
      ∧ lateReturn.getStronglyConnectedComponents = .ok []
      ∧ node1 ∈ lateReturn.nodes.values
      ∧ ¬lateReturn.AreComponents [] := by
  refine ⟨closed_of_entries (by decide) (by decide), by rfl, by decide, ?_⟩
  intro h
  have := h.once node1 (by decide)
  contradiction

end DirectedGraph
end N8n
