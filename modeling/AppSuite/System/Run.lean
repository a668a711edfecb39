import Mathlib

/-!
This module contains runs of a deterministic system: `Always` is about every state, `Along` about
every action. And programs whose steps are atomic operations on a shared state. What a program
does to its surroundings is described by a protocol: a state of its own, which each operation
advances or refuses.
-/

namespace Run

variable {σ α : Type} (step : σ → α → σ)

def Always (P : σ → Prop) (s : σ) (as : List α) : Prop :=
  match as with
  | [] => P s
  | a :: as => P s ∧ Always P (step s a) as

def Along (Ok : σ → α → Prop) (s : σ) (as : List α) : Prop :=
  match as with
  | [] => True
  | a :: as => Ok s a ∧ Along Ok (step s a) as

instance Along.decidable (Ok : σ → α → Prop) [∀ s a, Decidable (Ok s a)] (s : σ) (as : List α)
    : Decidable (Along step Ok s as) :=
  match as with
  | [] => inferInstanceAs (Decidable True)
  | a :: as =>
    have := Along.decidable Ok (step s a) as
    inferInstanceAs (Decidable (Ok s a ∧ Along step Ok (step s a) as))

variable {step} {P : σ → Prop} {Ok : σ → α → Prop} {s : σ} {as : List α}

theorem Always.here (h : Always step P s as) : P s := by
  cases as with
  | nil => exact h
  | cons a as => exact h.1

theorem Always.last (h : Always step P s as) : P (as.foldl step s) := by
  induction as generalizing s with
  | nil => exact h
  | cons a as ih =>
    apply ih
    exact h.2

theorem always_of_last (hback : ∀ s a, P (step s a) → P s) (h : P (as.foldl step s))
    : Always step P s as := by
  induction as generalizing s with
  | nil => exact h
  | cons a as ih =>
    have htail := ih h
    exact ⟨hback s a htail.here, htail⟩

theorem foldl_frame {β : Type} (f : σ → β) (h : ∀ s a, f (step s a) = f s) (s : σ) (as : List α)
    : f (as.foldl step s) = f s := by
  induction as generalizing s with
  | nil => rfl
  | cons a as ih => rw [List.foldl_cons, ih, h]

theorem foldl_concat (before : List α) : as.foldl (fun before a => before ++ [a]) before = before ++ as := by
  rw [List.foldl_append_eq_append, ← List.flatMap_def, List.flatMap_singleton']

theorem always_iff_forall_isPrefix : Always step P s as ↔ ∀ bs, bs <+: as → P (bs.foldl step s) := by
  induction as generalizing s with
  | nil => simp [Always]
  | cons a as ih =>
    rw [Always, ih]
    constructor
    . intro h bs hbs
      cases bs with
      | nil => exact h.1
      | cons b bs =>
        rw [List.cons_prefix_cons] at hbs
        obtain ⟨rfl, hbs⟩ := hbs
        exact h.2 bs hbs
    . intro h
      refine ⟨h [] List.nil_prefix, ?_⟩
      intro bs hbs
      apply h (a :: bs)
      rw [List.cons_prefix_cons]
      exact ⟨rfl, hbs⟩

theorem along_append
    : Along step Ok s (as ++ bs) ↔ Along step Ok s as ∧ Along step Ok (as.foldl step s) bs := by
  induction as generalizing s with
  | nil => simp [Along]
  | cons a as ih =>
    rw [List.cons_append, List.foldl_cons, Along, Along, ih, and_assoc]

theorem along_of_ok (h : ∀ s a, Ok s a) (s : σ) (as : List α) : Along step Ok s as := by
  induction as generalizing s with
  | nil => trivial
  | cons a as ih => exact ⟨h s a, ih (step s a)⟩

theorem along_and {Ok' : σ → α → Prop} (h : Along step Ok s as) (h' : Along step Ok' s as)
    : Along step (fun s a => Ok s a ∧ Ok' s a) s as := by
  induction as generalizing s with
  | nil => trivial
  | cons a as ih => exact ⟨⟨h.1, h'.1⟩, ih h.2 h'.2⟩

theorem along_of_forall (step : σ → α → σ) (s : σ) {Adm : α → Prop} (h : ∀ a ∈ as, Adm a)
    : Along step (fun _ => Adm) s as := by
  induction as generalizing s with
  | nil => trivial
  | cons a as ih =>
    rw [List.forall_mem_cons] at h
    exact ⟨h.1, ih (step s a) h.2⟩

variable (Inv : σ → Prop)

theorem always_of_along (hP : ∀ s, Inv s → P s) (hstep : ∀ s a, Inv s → Ok s a → Inv (step s a))
    (hs : Inv s) (h : Along step Ok s as) : Always step P s as := by
  induction as generalizing s with
  | nil =>
    apply hP
    assumption
  | cons a as ih =>
    refine ⟨hP s hs, ?_⟩
    apply ih
    . apply hstep
      . assumption
      . exact h.1
    . exact h.2

theorem always_iff_along_of_along (Adm : σ → α → Prop) (hP : ∀ s, Inv s → P s)
    (hstep : ∀ s a, Inv s → Adm s a → Ok s a → Inv (step s a))
    (hbad : ∀ s a, Inv s → Adm s a → ¬Ok s a → ¬P (step s a)) (hs : Inv s) (hadm : Along step Adm s as)
    : Always step P s as ↔ Along step Ok s as := by
  induction as generalizing s with
  | nil => simp [Always, Along, hP s hs]
  | cons a as ih =>
    constructor
    . intro h
      have hok : Ok s a := by
        by_contra hnot
        apply hbad s a hs hadm.1 hnot
        exact h.2.here
      exact ⟨hok, (ih (hstep s a hs hadm.1 hok) hadm.2).mp h.2⟩
    . intro h
      exact ⟨hP s hs, (ih (hstep s a hs hadm.1 h.1) hadm.2).mpr h.2⟩

theorem always_iff_along (Adm : α → Prop) (hP : ∀ s, Inv s → P s)
    (hstep : ∀ s a, Inv s → Adm a → Ok s a → Inv (step s a))
    (hbad : ∀ s a, Inv s → Adm a → ¬Ok s a → ¬P (step s a)) (hs : Inv s) (hadm : ∀ a ∈ as, Adm a)
    : Always step P s as ↔ Along step Ok s as := by
  apply always_iff_along_of_along Inv (fun _ => Adm) hP hstep hbad hs
  apply along_of_forall
  assumption

end Run

inductive Prog (Op : Type) (Res : Op → Type) (α : Type) where
  | pure (a : α)
  | call (op : Op) (k : Res op → Prog Op Res α)

namespace Prog

variable {Op : Type} {Res : Op → Type} {σ γ α β : Type}

def bind (p : Prog Op Res α) (f : α → Prog Op Res β) : Prog Op Res β :=
  match p with
  | .pure a => f a
  | .call op k => .call op fun r => (k r).bind f

instance : Monad (Prog Op Res) where
  pure := .pure
  bind := bind

def perform (op : Op) : Prog Op Res (Res op) := .call op .pure

def run (exec : (op : Op) → σ → Res op × σ) (p : Prog Op Res α) (s : σ) : α × σ :=
  match p with
  | .pure a => (a, s)
  | .call op k => run exec (k (exec op s).1) (exec op s).2

def Follows (after : (op : Op) → γ → Res op → Option γ) (Q : α → γ → Prop) (p : Prog Op Res α) (g : γ)
    : Prop :=
  match p with
  | .pure a => Q a g
  | .call op k => ∀ r, ∃ g', after op g r = some g' ∧ (k r).Follows after Q g'

variable {after : (op : Op) → γ → Res op → Option γ}

theorem follows_perform {Q : β → γ → Prop} {op : Op} {f : Res op → Prog Op Res β}
    (h : ∀ r, ∃ g', after op g r = some g' ∧ (f r).Follows after Q g')
    : (perform op >>= f).Follows after Q g := by
  exact h

theorem follows_bind {Q : α → γ → Prop} {R : β → γ → Prop}
    {f : α → Prog Op Res β} (hp : p.Follows after Q g)
    (hf : ∀ a g', Q a g' → (f a).Follows after R g')
    : (p >>= f).Follows after R g := by
  induction p generalizing g with
  | pure a => exact hf a g hp
  | call op k ih =>
    intro r
    obtain ⟨g', hg', hk⟩ := hp r
    exact ⟨g', hg', ih r hk⟩

end Prog
