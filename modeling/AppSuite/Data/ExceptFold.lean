import Mathlib

/-!
This module contains rules for code that may throw, and invariants of loops written as
`foldlM`.
-/

namespace ExceptFold

open List

section Sequence

variable {ε α β : Type} {a b : α}

theorem pure_eq_ok : (pure a : Except ε α) = .ok b ↔ a = b := by
  simp [pure, Except.pure]

variable {e : ε} {x : Except ε α}

theorem throw_eq_ok : (throw e : Except ε α) = .ok a ↔ False := by
  simp [throw, throwThe, MonadExceptOf.throw]

theorem pure_eq_error : (pure a : Except ε α) = .error e ↔ False := by
  simp [pure, Except.pure]

theorem throw_eq_error : (throw e : Except ε α) = .error e' ↔ e = e' := by
  simp [throw, throwThe, MonadExceptOf.throw]

theorem bind_eq_ok {f : α → Except ε β} {b : β} : (x >>= f) = .ok b ↔ ∃ a, x = .ok a ∧ f a = .ok b := by
  cases x <;> simp [bind, Except.bind]

theorem bind_eq_error {f : α → Except ε β}
    : (x >>= f) = .error e ↔ x = .error e ∨ ∃ a, x = .ok a ∧ f a = .error e := by
  cases x <;> simp [bind, Except.bind]

theorem unit_bind_eq_ok {x : Except ε Unit}
    : (x >>= fun _ => y) = .ok a ↔ x = .ok () ∧ y = .ok a := by
  cases x <;> simp [bind, Except.bind]

theorem guard_eq_ok {c : Prop} [Decidable c] : (if c then throw e else x) = .ok a ↔ ¬c ∧ x = .ok a := by
  split
  . next h => simp [throw_eq_ok, h]
  . next h => simp [h]

end Sequence

variable {ε σ α : Type} {f : σ → α → Except ε σ} {xs : List α} {s s' : σ} {x : α}

theorem foldlM_cons_eq_ok (h : (x :: xs).foldlM f s = .ok s')
    : ∃ mid, f s x = .ok mid ∧ xs.foldlM f mid = .ok s' := by
  rw [foldlM_cons] at h
  cases hx : f s x with
  | error e =>
    rw [hx] at h
    contradiction
  | ok mid =>
    rw [hx] at h
    exact ⟨mid, rfl, h⟩

theorem foldlM_cons_of_ok (h : f s x = .ok mid) : (x :: xs).foldlM f s = xs.foldlM f mid := by
  rw [foldlM_cons, h]
  rfl

theorem foldlM_eq_ok {g : σ → α → σ} (h : ∀ s, ∀ x ∈ xs, f s x = .ok (g s x)) (s : σ)
    : xs.foldlM f s = .ok (xs.foldl g s) := by
  induction xs generalizing s with
  | nil => rfl
  | cons x xs ih =>
    rw [foldlM_cons_of_ok (h s x mem_cons_self)]
    exact ih (fun s y hy => h s y (mem_cons_of_mem x hy)) (g s x)

theorem mapM_eq_ok {β : Type} {f : α → Except ε β} {g : α → β} (h : ∀ x ∈ xs, f x = .ok (g x))
    : xs.mapM f = .ok (xs.map g) := by
  induction xs with
  | nil => rfl
  | cons x xs ih =>
    rw [mapM_cons, h x mem_cons_self, ih fun y hy => h y (mem_cons_of_mem x hy)]
    rfl

theorem inv_of_foldlM_ok (Inv : σ → Prop) (hstep : ∀ s x s', x ∈ xs → Inv s → f s x = .ok s' → Inv s')
    (hs : Inv s) (h : xs.foldlM f s = .ok s')
    : Inv s' := by
  induction xs generalizing s with
  | nil =>
    injection h with h
    rw [← h]
    assumption
  | cons x xs ih =>
    have ⟨mid, hmid, hrest⟩ := foldlM_cons_eq_ok h
    apply ih
    . intro s y s' hy
      apply hstep
      exact mem_cons_of_mem x hy
    . apply hstep s x mid _ hs hmid
      simp
    . assumption

theorem inv_processed_of_foldlM_ok (Inv : List α → σ → Prop)
    (hstep : ∀ done x rest s s', xs = done ++ x :: rest → Inv done s → f s x = .ok s' → Inv (done ++ [x]) s')
    (hs : Inv [] s) (h : xs.foldlM f s = .ok s')
    : Inv xs s' := by
  have hrest (done rest : List α) (s : σ) (hxs : xs = done ++ rest) (hs : Inv done s)
      (h : rest.foldlM f s = .ok s')
      : Inv xs s' := by
    induction rest generalizing done s with
    | nil =>
      injection h with h
      rw [hxs, append_nil, ← h]
      assumption
    | cons x rest ih =>
      have ⟨mid, hmid, hfold⟩ := foldlM_cons_eq_ok h
      apply ih (done ++ [x]) mid _ _ hfold
      . rw [append_assoc]
        exact hxs
      . exact hstep done x rest s mid hxs hs hmid
  exact hrest [] xs s rfl hs h

theorem appended_of_foldlM_ok {β γ : Type} (out : σ → List β) (make : α → List γ) (R : γ → β → Prop)
    (hstep : ∀ s x s', f s x = .ok s' → ∃ items, out s' = out s ++ items ∧ Forall₂ R (make x) items)
    (h : xs.foldlM f s = .ok s')
    : ∃ items, out s' = out s ++ items ∧ Forall₂ R (xs.flatMap make) items := by
  induction xs generalizing s with
  | nil =>
    injection h with h
    rw [← h]
    exact ⟨[], by simp, by simp⟩
  | cons x xs ih =>
    have ⟨mid, hmid, hrest⟩ := foldlM_cons_eq_ok h
    have ⟨items, hout, hR⟩ := hstep s x mid hmid
    have ⟨items', hout', hR'⟩ := ih hrest
    refine ⟨items ++ items', ?_, ?_⟩
    . rw [hout', hout, append_assoc]
    . exact rel_append hR hR'

theorem forall₂_iff_of_forall₂ {α β : Type} {R Q : α → β → Prop} {C : α → Prop} {xs : List α}
    {ys : List β} (hR : Forall₂ R xs ys) (h : ∀ x ∈ xs, ∀ y, R x y → (Q x y ↔ C x))
    : Forall₂ Q xs ys ↔ ∀ x ∈ xs, C x := by
  induction hR with
  | nil => simp
  | cons hxy _ ih =>
    rw [forall₂_cons, forall_mem_cons, h _ (by simp) _ hxy, ih]
    intro x hx
    apply h
    exact mem_cons_of_mem _ hx

/-! How actions may end: with a result of which `post` holds, or with an error that is allowed. -/

def Ends {ε α : Type} (allowed : ε → Prop) (post : α → Prop) : Except ε α → Prop
  | .ok a => post a
  | .error e => allowed e

namespace Ends

variable {ε σ α β : Type} {allowed : ε → Prop} {x : Except ε α}

theorem intro {post : α → Prop} (hok : ∀ a, x = .ok a → post a) (herror : ∀ e, x = .error e → allowed e)
    : Ends allowed post x := by
  cases x with
  | ok a => exact hok a rfl
  | error e => exact herror e rfl

theorem bind {mid : α → Prop} {post : β → Prop} {f : α → Except ε β} (hx : Ends allowed mid x)
    (hf : ∀ a, mid a → Ends allowed post (f a))
    : Ends allowed post (x >>= f) := by
  cases x with
  | ok a => exact hf a hx
  | error e => exact hx

theorem mono {post post' : α → Prop} (h : Ends allowed post x) (hpost : ∀ a, post a → post' a)
    : Ends allowed post' x := by
  cases x with
  | ok a => exact hpost a h
  | error e => exact h

theorem foldlM {f : σ → α → Except ε σ} {xs : List α} (Inv : σ → Prop)
    (hstep : ∀ s x, x ∈ xs → Inv s → Ends allowed Inv (f s x)) {s : σ} (hs : Inv s)
    : Ends allowed Inv (xs.foldlM f s) := by
  induction xs generalizing s with
  | nil => exact hs
  | cons x xs ih =>
    apply bind (hstep s x mem_cons_self hs)
    intro mid hmid
    apply ih _ hmid
    intro s y hy
    exact hstep s y (mem_cons_of_mem x hy)

-- `mem` says what the state has collected; every element adds what `P` says of it.
theorem foldlM_collect {f : σ → α → Except ε σ} {xs : List α} (Inv : σ → Prop) (mem : σ → β → Prop)
    {P : α → β → Prop}
    (hstep : ∀ s x, x ∈ xs → Inv s → Ends allowed (fun s' => Inv s' ∧ ∀ b, mem s' b ↔ mem s b ∨ P x b) (f s x))
    {s : σ} (hs : Inv s)
    : Ends allowed (fun s' => Inv s' ∧ ∀ b, mem s' b ↔ mem s b ∨ ∃ x ∈ xs, P x b) (xs.foldlM f s) := by
  induction xs generalizing s with
  | nil => simp [Ends, pure, Except.pure, hs]
  | cons x xs ih =>
    apply bind (hstep s x mem_cons_self hs)
    rintro mid ⟨hinv, hmid⟩
    apply mono (ih (fun s y hy => hstep s y (mem_cons_of_mem x hy)) hinv)
    rintro s' ⟨hinv', hs'⟩
    simp [hinv', hs', hmid, or_assoc]

theorem mapError {ε' : Type} {f : ε → ε'} {allowed : ε' → Prop} {post : α → Prop}
    (h : Ends (allowed ∘ f) post x)
    : Ends allowed post (x.mapError f) := by
  cases x <;> exact h

theorem mapM {f : α → Except ε β} {R : α → β → Prop} {xs : List α}
    (hf : ∀ x ∈ xs, Ends allowed (R x) (f x))
    : Ends allowed (Forall₂ R xs) (xs.mapM f) := by
  induction xs with
  | nil => exact Forall₂.nil
  | cons x xs ih =>
    rw [mapM_cons]
    apply bind (hf x mem_cons_self)
    intro y hy
    apply bind (ih fun z hz => hf z (mem_cons_of_mem x hz))
    intro ys hys
    exact Forall₂.cons hy hys

end Ends

end ExceptFold
