import Mathlib

/-!
This module contains the split of a text at the occurrences of a separator.
-/

namespace Text

variable {α : Type} [DecidableEq α]

def splitFrom (separator : List α) (skip : Nat) (s : List α) : List (List α) :=
  match skip, s with
  | _, [] => [[]]
  | skip + 1, _ :: s => splitFrom separator skip s
  | 0, c :: s =>
    if separator ≠ [] ∧ separator <+: c :: s then
      [] :: splitFrom separator (separator.length - 1) s
    else
      (splitFrom separator 0 s).modifyHead (c :: ·)

def split (separator s : List α) : List (List α) := splitFrom separator 0 s

def removeFrom (separator : List α) (skip : Nat) (s : List α) : List α :=
  match skip, s with
  | _, [] => []
  | skip + 1, _ :: s => removeFrom separator skip s
  | 0, c :: s =>
    if separator ≠ [] ∧ separator <+: c :: s then
      removeFrom separator (separator.length - 1) s
    else
      c :: removeFrom separator 0 s

def remove (separator s : List α) : List α := removeFrom separator 0 s

theorem split_nil (s : List α) : split [] s = [s] := by
  unfold split
  induction s with
  | nil => rfl
  | cons c s ih => simp [splitFrom, ih]

variable (separator : List α) (s : List α)

theorem splitFrom_ne_nil (skip : Nat) : splitFrom separator skip s ≠ [] := by
  induction s generalizing skip with
  | nil => simp [splitFrom]
  | cons c s ih =>
    cases skip with
    | succ skip => exact ih skip
    | zero =>
      rw [splitFrom]
      split
      . exact List.cons_ne_nil _ _
      . have := ih 0
        simpa [List.modifyHead_eq_nil_iff]

theorem split_ne_nil : split separator s ≠ [] := splitFrom_ne_nil separator s 0

omit [DecidableEq α] in
theorem intercalate_modifyHead_cons (h : pieces ≠ []) (c : α)
    : separator.intercalate (pieces.modifyHead (c :: ·)) = c :: separator.intercalate pieces := by
  cases pieces with
  | nil => exact absurd rfl h
  | cons piece pieces =>
    cases pieces with
    | nil => simp
    | cons next pieces => simp [List.intercalate_cons_cons]

theorem intercalate_splitFrom (skip : Nat)
    : separator.intercalate (splitFrom separator skip s) = s.drop skip := by
  induction s generalizing skip with
  | nil => simp [splitFrom]
  | cons c s ih =>
    cases skip with
    | succ skip => exact ih skip
    | zero =>
      have hne := splitFrom_ne_nil separator s
      rw [splitFrom]
      split
      . next h =>
        obtain ⟨hsep, rest, hrest⟩ := h
        cases hcase : splitFrom separator (separator.length - 1) s with
        | nil => exact absurd hcase (hne _)
        | cons piece pieces =>
          rw [List.intercalate_cons_cons, ← hcase, ih, List.nil_append, List.drop_zero, ← hrest]
          cases separator with
          | nil => exact absurd rfl hsep
          | cons c' separator =>
            rw [List.cons_append, List.cons.injEq] at hrest
            simp [← hrest.2]
      . rw [intercalate_modifyHead_cons separator (hne 0), ih]
        rfl

theorem intercalate_split : separator.intercalate (split separator s) = s :=
  intercalate_splitFrom separator s 0

theorem flatten_splitFrom (skip : Nat)
    : (splitFrom separator skip s).flatten = removeFrom separator skip s := by
  induction s generalizing skip with
  | nil => rfl
  | cons c s ih =>
    cases skip with
    | succ skip => exact ih skip
    | zero =>
      have hne := splitFrom_ne_nil separator s 0
      rw [splitFrom, removeFrom]
      split
      . rw [List.flatten_cons, List.nil_append, ih]
      . rw [← ih]
        cases hcase : splitFrom separator 0 s with
        | nil => exact absurd hcase hne
        | cons piece pieces => rfl

theorem flatten_split : (split separator s).flatten = remove separator s :=
  flatten_splitFrom separator s 0

end Text
