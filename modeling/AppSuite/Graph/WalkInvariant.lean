import AppSuite.Graph.DepthFirst

/-!
This module contains what holds at every point of a depth first search, with the vertices numbered
as entered.
-/

namespace DepthFirst

open List Relation Walk

variable {V : Type}

def Reach (children : V → List V) : V → V → Prop := ReflTransGen fun u c => c ∈ children u

def Mutual (children : V → List V) (a b : V) : Prop := Reach children a b ∧ Reach children b a

namespace Mutual

variable {children : V → List V} {a b c : V}

theorem refl (a : V) : Mutual children a a := ⟨ReflTransGen.refl, ReflTransGen.refl⟩

theorem symm (h : Mutual children a b) : Mutual children b a := ⟨h.2, h.1⟩

theorem trans (h : Mutual children a b) (h' : Mutual children b c) : Mutual children a c :=
  ⟨ReflTransGen.trans h.1 h'.1, ReflTransGen.trans h'.2 h.2⟩

end Mutual

variable {children : V → List V} {w : Walk V}

theorem Reach.closed {S : V → Prop} (hclosed : ∀ u, S u → ∀ c ∈ children u, S c) {a b : V}
    (h : Reach children a b) (ha : S a)
    : S b := by
  induction h with
  | refl => assumption
  | tail _ hedge ih => exact hclosed _ ih _ hedge

def Returns : List (V × V) → V → V → Prop
  | [], x, w => x = w
  | (u, c) :: log, x, w => Returns log x w ∨ (x = u ∧ Returns log c w)

namespace Returns

instance decidable [DecidableEq V] : (log : List (V × V)) → (x w : V) → Decidable (Returns log x w)
  | [], x, w => inferInstanceAs (Decidable (x = w))
  | (u, c) :: log, x, w =>
    have := decidable log x w
    have := decidable log c w
    inferInstanceAs (Decidable (Returns log x w ∨ (x = u ∧ Returns log c w)))

theorem refl (log : List (V × V)) (x : V) : Returns log x x := by
  induction log with
  | nil => rfl
  | cons e log ih => exact Or.inl ih

variable {log : List (V × V)} {x w : V}

theorem mono (h : log.Sublist log') (hr : Returns log x w) : Returns log' x w := by
  induction h generalizing x with
  | slnil => assumption
  | cons e _ ih => exact Or.inl (ih hr)
  | cons_cons e _ ih =>
    cases hr with
    | inl hr => exact Or.inl (ih hr)
    | inr hr => exact Or.inr ⟨hr.1, ih hr.2⟩

variable {c : V}

theorem single (h : (x, c) ∈ log) : Returns log x c := by
  have hsub : [(x, c)].Sublist log := singleton_sublist.mpr h
  apply mono hsub
  exact Or.inr ⟨rfl, rfl⟩

theorem closed {S : V → Prop} (hclosed : ∀ e ∈ log, S e.1 → S e.2) (hr : Returns log x w) (hx : S x)
    : S w := by
  induction log generalizing x with
  | nil =>
    rw [← show x = w from hr]
    assumption
  | cons e log ih =>
    rw [forall_mem_cons] at hclosed
    cases hr with
    | inl hr => exact ih hclosed.2 hr hx
    | inr hr =>
      apply ih hclosed.2 hr.2
      apply hclosed.1
      rw [← hr.1]
      assumption

theorem reach {children : V → List V} (hlog : ∀ e ∈ log, e.2 ∈ children e.1) (hr : Returns log x w)
    : Reach children x w := by
  apply hr.closed (S := fun y => Reach children x y)
  . intro e he hreach
    exact ReflTransGen.tail hreach (hlog e he)
  . exact ReflTransGen.refl

theorem cons_of_ne {u : V} (hne : x ≠ u) : Returns ((u, c) :: log) x w ↔ Returns log x w := by
  apply Iff.intro
  . intro hr
    cases hr with
    | inl hr => assumption
    | inr hr => exact absurd hr.1 hne
  . exact Or.inl

theorem eq_of_not_source (hx : ∀ e ∈ log, e.1 ≠ x) (hr : Returns log x w) : x = w := by
  induction log with
  | nil => assumption
  | cons e log ih =>
    rw [forall_mem_cons] at hx
    cases hr with
    | inl hr => exact ih hx.2 hr
    | inr hr => exact absurd hr.1.symm hx.1

theorem filter {p : V × V → Bool} (hp : ∀ e ∈ log, Returns log e.2 w → p e = true) (hr : Returns log x w)
    : Returns (log.filter p) x w := by
  induction log generalizing x with
  | nil => assumption
  | cons e log ih =>
    have hsub : log.Sublist (e :: log) := sublist_cons_self e log
    have hp' : ∀ e ∈ log, Returns log e.2 w → p e = true := by
      intro e' he' hr'
      exact hp e' (mem_cons_of_mem e he') (hr'.mono hsub)
    rw [filter_cons]
    cases hr with
    | inl hr =>
      split
      . exact Or.inl (ih hp' hr)
      . exact ih hp' hr
    | inr hr =>
      rw [if_pos (hp e mem_cons_self (hr.2.mono hsub))]
      exact Or.inr ⟨hr.1, ih hp' hr.2⟩

end Returns

def Numbered (num : V → Nat) (w : Walk V) (event : Event V) : Prop :=
  match event with
  | .enter v => num v = w.order.length
  | _ => True

theorem order_advance (w : Walk V) (event : Event V) : w.order <+: (w.advance event).order := by
  cases event with
  | enter v => apply prefix_append
  | edge u c | leave v => apply prefix_refl

theorem order_foldl (w : Walk V) (events : List (Event V))
    : w.order <+: (events.foldl advance w).order := by
  induction events generalizing w with
  | nil => apply prefix_refl
  | cons event events ih => exact (order_advance w event).trans (ih _)

theorem along_numbered [DecidableEq V] {events : List (Event V)}
    (h : Run.Along advance (Legal children) w events) {order : List V}
    (horder : (events.foldl advance w).order = order)
    : Run.Along advance (fun w e => Legal children w e ∧ Numbered order.idxOf w e) w events := by
  induction events generalizing w with
  | nil => trivial
  | cons event events ih =>
    refine ⟨⟨h.1, ?_⟩, ih h.2 horder⟩
    cases event with
    | enter v =>
      have ⟨rest, hrest⟩ := order_foldl (w.advance (.enter v)) events
      have hnew : v ∉ w.order := h.1.1
      unfold Numbered
      rw [← horder, foldl_cons, ← hrest]
      unfold advance
      dsimp only
      rw [List.append_assoc, idxOf_append_of_notMem hnew]
      simp
    | edge u c | leave v => trivial

structure Walk.Inv (children : V → List V) (num : V → Nat) (w : Walk V) : Prop where
  num_lt : ∀ x ∈ w.order, num x < w.order.length
  num_inj : ∀ x ∈ w.order, ∀ y ∈ w.order, num x = num y → x = y
  frames : ∀ u ∈ w.frames, u ∈ w.order
  nested : w.frames.Pairwise fun a b => num b < num a
  log : ∀ e ∈ w.log, e.1 ∈ w.order ∧ e.2 ∈ w.order ∧ e.2 ∈ children e.1
  left : ∀ x ∈ w.order, x ∉ w.frames → ∀ c ∈ children x, (x, c) ∈ w.log
  before : ∀ u ∈ w.frames, ∀ e ∈ w.log, num e.1 < num u → num e.2 < num u
  tree : ∀ e ∈ w.tree, e.1 ∈ w.order ∧ e.2 ∈ w.order ∧ e.2 ∈ children e.1 ∧ num e.1 < num e.2
  under : ∀ u ∈ w.frames, ∀ y ∈ w.order, num u < num y → ∃ p, (p, y) ∈ w.tree ∧ num u ≤ num p
  pending : ∀ e ∈ w.tree, e.2 ∈ w.frames → e ∉ w.log

theorem frames_eq_cons {u : V} (h : w.frames.head? = some u) : w.frames = u :: w.frames.tail :=
  (cons_head?_tail h).symm

namespace Walk.Inv

variable {children : V → List V} {num : V → Nat} {w : Walk V}

theorem empty : Walk.empty.Inv children num := by
  constructor <;> simp [Walk.empty]

variable {u v y : V}

section

variable (h : w.Inv children num)

include h

theorem num_le_head (hu : w.frames.head? = some u) (hv : v ∈ w.frames) : num v ≤ num u := by
  have hnested := h.nested
  rw [frames_eq_cons hu] at hnested hv
  rw [pairwise_cons] at hnested
  rw [mem_cons] at hv
  cases hv with
  | inl heq => rw [heq]
  | inr hmem => exact Nat.le_of_lt (hnested.1 v hmem)

theorem num_inj_enter (hnum : num v = w.order.length) {x : V}
    (hx : x ∈ (w.advance (.enter v)).order) (hy : y ∈ (w.advance (.enter v)).order) (heq : num x = num y)
    : x = y := by
  rw [mem_order_enter] at hx hy
  cases hx with
  | inl hx =>
    cases hy with
    | inl hy => exact h.num_inj x hx y hy heq
    | inr hy =>
      have := h.num_lt x hx
      rw [hy] at heq
      omega
  | inr hx =>
    cases hy with
    | inl hy =>
      have := h.num_lt y hy
      rw [hx] at heq
      omega
    | inr hy => rw [hx, hy]

theorem under_enter (hnum : num v = w.order.length)
    (hu : u ∈ (w.advance (.enter v)).frames) (hy : y ∈ (w.advance (.enter v)).order)
    (hbelow : num u < num y)
    : ∃ p, (p, y) ∈ (w.advance (.enter v)).tree ∧ num u ≤ num p := by
  rw [mem_frames_enter] at hu
  rw [mem_order_enter] at hy
  cases hu with
  | inl heq =>
    rw [heq] at hbelow
    cases hy with
    | inl hy =>
      have := h.num_lt y hy
      omega
    | inr hy =>
      rw [hy] at hbelow
      omega
  | inr hu =>
    cases hy with
    | inl hy =>
      have ⟨p, hp, hle⟩ := h.under u hu y hy hbelow
      exact ⟨p, mem_tree_enter.mpr (Or.inr hp), hle⟩
    | inr hy =>
      have ⟨p, hp⟩ : ∃ p, w.frames.head? = some p := by
        cases hframes : w.frames with
        | nil => simp [hframes] at hu
        | cons p _ => exact ⟨p, rfl⟩
      refine ⟨p, mem_tree_enter.mpr (Or.inl ⟨p, hp, ?_⟩), h.num_le_head hp hu⟩
      rw [hy]

theorem enter (hlegal : Legal children w (.enter v))
    (hnum : num v = w.order.length)
    : (w.advance (.enter v)).Inv children num := by
  have ⟨hnew, hchild⟩ := hlegal
  have hlt (x : V) (hx : x ∈ w.order) : num x < num v := by
    rw [hnum]
    exact h.num_lt x hx
  constructor
  case num_lt =>
    intro x hx
    have hlength : (w.advance (.enter v)).order.length = w.order.length + 1 := length_append
    rw [mem_order_enter] at hx
    cases hx with
    | inl hx =>
      have := hlt x hx
      omega
    | inr heq =>
      rw [heq]
      omega
  case num_inj =>
    intro x hx y hy heq
    exact h.num_inj_enter hnum hx hy heq
  case frames =>
    intro u hu
    rw [mem_frames_enter] at hu
    rw [mem_order_enter]
    cases hu with
    | inl heq => exact Or.inr heq
    | inr hu => exact Or.inl (h.frames u hu)
  case nested =>
    apply List.Pairwise.cons _ h.nested
    intro u hu
    exact hlt u (h.frames u hu)
  case log =>
    intro e he
    have ⟨hsource, htarget, hedge⟩ := h.log e he
    rw [mem_order_enter, mem_order_enter]
    exact ⟨Or.inl hsource, Or.inl htarget, hedge⟩
  case left =>
    intro x hx hleft
    rw [mem_order_enter] at hx
    rw [mem_frames_enter, not_or] at hleft
    cases hx with
    | inl hx => exact h.left x hx hleft.2
    | inr heq => exact absurd heq hleft.1
  case before =>
    intro u hu e he hbefore
    rw [mem_frames_enter] at hu
    cases hu with
    | inl heq =>
      rw [heq]
      exact hlt e.2 (h.log e he).2.1
    | inr hu => exact h.before u hu e he hbefore
  case tree =>
    intro e he
    rw [mem_order_enter, mem_order_enter]
    rw [mem_tree_enter] at he
    cases he with
    | inl hentered =>
      have ⟨p, hp, heq⟩ := hentered
      have hmem := h.frames p (mem_of_mem_head? hp)
      rw [heq]
      exact ⟨Or.inl hmem, Or.inr rfl, hchild p hp, hlt p hmem⟩
    | inr hold =>
      have ⟨hsource, htarget, hrest⟩ := h.tree e hold
      exact ⟨Or.inl hsource, Or.inl htarget, hrest⟩
  case under =>
    intro u hu y hy hbelow
    exact h.under_enter hnum hu hy hbelow
  case pending =>
    intro e he hframe hlog
    have htarget := (h.log e hlog).2.1
    rw [mem_tree_enter] at he
    rw [mem_frames_enter] at hframe
    cases he with
    | inl hentered =>
      have ⟨p, _, heq⟩ := hentered
      rw [heq] at htarget
      contradiction
    | inr hold =>
      cases hframe with
      | inl heq =>
        rw [heq] at htarget
        contradiction
      | inr hmem => exact h.pending e hold hmem hlog

theorem edge {c : V} (hlegal : Legal children w (.edge u c))
    : (w.advance (.edge u c)).Inv children num := by
  have ⟨hhead, hc, hedge⟩ := hlegal
  have hu := h.frames u (mem_of_mem_head? hhead)
  refine { h with log := ?log, left := ?left, before := ?before, pending := ?pending }
  case log =>
    intro e he
    rw [mem_log_edge] at he
    cases he with
    | inl heq =>
      rw [heq]
      exact ⟨hu, hc, hedge⟩
    | inr he => exact h.log e he
  case left =>
    intro x hx hleft c' hc'
    exact mem_cons_of_mem _ (h.left x hx hleft c' hc')
  case before =>
    intro u' hu' e he hbefore
    rw [mem_log_edge] at he
    cases he with
    | inl heq =>
      have := h.num_le_head hhead hu'
      rw [heq] at hbefore
      dsimp only at hbefore
      omega
    | inr he => exact h.before u' hu' e he hbefore
  case pending =>
    intro e he hframe hlog
    rw [mem_log_edge] at hlog
    cases hlog with
    | inl heq =>
      have hlt := (h.tree e he).2.2.2
      have hle := h.num_le_head hhead hframe
      rw [heq] at hlt hle
      dsimp only at hlt hle
      omega
    | inr hlog => exact h.pending e he hframe hlog

theorem leave (hlegal : Legal children w (.leave u)) : (w.advance (.leave u)).Inv children num := by
  have ⟨hhead, hall⟩ := hlegal
  have hmem (x : V) (hx : x ∈ (w.advance (.leave u)).frames) : x ∈ w.frames := mem_of_mem_tail hx
  refine { h with
    frames := fun x hx => h.frames x (hmem x hx), nested := h.nested.tail, left := ?_
    before := fun x hx => h.before x (hmem x hx), under := fun x hx => h.under x (hmem x hx)
    pending := fun e he hframe => h.pending e he (hmem e.2 hframe) }
  intro x hx hleft
  by_cases heq : x = u
  . rw [heq]
    exact hall
  . apply h.left x hx
    rw [frames_eq_cons hhead, mem_cons, not_or]
    exact ⟨heq, hleft⟩

theorem reach (hu : u ∈ w.frames) (hy : y ∈ w.order) (hle : num u ≤ num y) : Reach children u y := by
  induction hn : num y using Nat.strong_induction_on generalizing y with
  | _ n ih =>
    cases Nat.lt_or_eq_of_le hle with
    | inl hlt =>
      have ⟨p, hp, hup⟩ := h.under u hu y hy hlt
      have ⟨hpmem, _, hedge, hpy⟩ := h.tree (p, y) hp
      dsimp only at hpmem hedge hpy
      apply ReflTransGen.tail _ hedge
      exact ih (num p) (by omega) hpmem hup rfl
    | inr heq =>
      rw [h.num_inj u (h.frames u hu) y hy heq]
      exact ReflTransGen.refl

end

end Walk.Inv

end DepthFirst
