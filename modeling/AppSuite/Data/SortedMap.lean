import Mathlib

/-!
This module contains maps as lists of entries in the order of their keys.
-/

namespace SortedMap

open List

variable {κ ν : Type} [LinearOrder κ]

def insert (key : κ) (value : ν) (entries : List (κ × ν)) : List (κ × ν) :=
  match entries with
  | [] => [(key, value)]
  | entry :: rest =>
    if key < entry.1 then
      (key, value) :: entry :: rest
    else if key = entry.1 then
      (key, value) :: rest
    else
      entry :: insert key value rest

variable (key : κ) (value : Option ν) (entries : List (κ × ν))

def insertSome : List (κ × ν) :=
  match value with
  | some value => insert key value entries
  | none => entries

def ofList : List (κ × ν) :=
  entries.foldl (fun map entry => insert entry.1 entry.2 map) []

def get? (entries : List (κ × ν)) (key : κ) : Option ν :=
  match entries with
  | [] => none
  | entry :: rest => if entry.1 = key then some entry.2 else get? rest key

def Sorted : Prop := entries.Pairwise (·.1 < ·.1)

variable {key key' : κ} {value : ν} {entries : List (κ × ν)}

@[simp]
theorem get?_nil : get? ([] : List (κ × ν)) key = none := rfl

theorem get?_cons
    : get? (entry :: entries) key = if entry.1 = key then some entry.2 else get? entries key := rfl

@[simp]
theorem get?_insert
    : get? (insert key value entries) key' = if key = key' then some value else get? entries key' := by
  induction entries with
  | nil => rfl
  | cons entry rest ih =>
    unfold insert
    split
    . rw [get?_cons]
    . split
      . next heq =>
        rw [get?_cons, get?_cons, ← heq]
        split <;> rfl
      . next hne =>
        rw [get?_cons, get?_cons, ih]
        split
        . next heq => rw [if_neg (heq ▸ hne)]
        . rfl

@[simp]
theorem get?_insertSome {value : Option ν}
    : get? (insertSome key value entries) key'
      = if key = key' then value.or (get? entries key') else get? entries key' := by
  cases value with
  | none | some value => simp [insertSome]

theorem mem_of_mem_insert (h : entry ∈ insert key value entries)
    : entry = (key, value) ∨ entry ∈ entries := by
  induction entries with
  | nil => exact .inl (mem_singleton.mp h)
  | cons head rest ih =>
    unfold insert at h
    split at h
    . exact mem_cons.mp h
    . split at h
      . rw [mem_cons] at h
        exact h.imp_right (mem_cons_of_mem head)
      . rw [mem_cons] at h
        cases h with
        | inl h => exact .inr (h ▸ mem_cons_self)
        | inr h => exact (ih h).imp_right (mem_cons_of_mem head)

theorem sorted_insert (h : Sorted entries) (key : κ) (value : ν) : Sorted (insert key value entries) := by
  induction entries with
  | nil => exact pairwise_singleton _ _
  | cons head rest ih =>
    have ⟨hhead, hrest⟩ := pairwise_cons.mp h
    unfold insert
    split
    . next hlt =>
      refine pairwise_cons.mpr ⟨?_, h⟩
      intro entry hentry
      cases mem_cons.mp hentry with
      | inl heq => exact heq ▸ hlt
      | inr hmem => exact hlt.trans (hhead entry hmem)
    . next hle =>
      split
      . next heq =>
        refine pairwise_cons.mpr ⟨?_, hrest⟩
        intro entry hentry
        exact heq ▸ hhead entry hentry
      . next hne =>
        refine pairwise_cons.mpr ⟨?_, ih hrest⟩
        intro entry hentry
        cases mem_of_mem_insert hentry with
        | inl heq =>
          rw [heq]
          exact lt_of_le_of_ne (not_lt.mp hle) (Ne.symm hne)
        | inr hmem => exact hhead entry hmem

theorem insert_eq_append (h : ∀ entry ∈ entries, entry.1 < key)
    : insert key value entries = entries ++ [(key, value)] := by
  induction entries with
  | nil => rfl
  | cons head rest ih =>
    rw [forall_mem_cons] at h
    unfold insert
    rw [if_neg h.1.asymm, if_neg h.1.ne', ih h.2]
    rfl

theorem foldl_insert_eq_append (h : Sorted (entries ++ more))
    : more.foldl (fun map entry => insert entry.1 entry.2 map) entries = entries ++ more := by
  induction more generalizing entries with
  | nil => rw [foldl_nil, append_nil]
  | cons entry more ih =>
    have hlt : ∀ before ∈ entries, before.1 < entry.1 := by
      intro before hbefore
      exact (pairwise_append.mp h).2.2 before hbefore entry mem_cons_self
    rw [foldl_cons, insert_eq_append hlt]
    rw [append_cons] at h
    rw [ih h, List.append_assoc]
    rfl

theorem ofList_of_sorted (h : Sorted entries) : ofList entries = entries :=
  foldl_insert_eq_append h

end SortedMap
