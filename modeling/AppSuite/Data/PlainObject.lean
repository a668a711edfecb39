import AppSuite.Data.OrderedMap

/-!
This module contains what plain objects of the language do beyond a map from names to values: array
indices are listed first, and names may be found on the prototype.
-/

namespace PlainObject

open List

variable {ν : Type}

def inheritedKeys : List String := [
  "constructor", "__defineGetter__", "__defineSetter__", "hasOwnProperty", "__lookupGetter__",
  "__lookupSetter__", "isPrototypeOf", "propertyIsEnumerable", "toString", "valueOf", "__proto__",
  "toLocaleString"]

-- Whether `object[key]` is anything but `undefined`.
def finds (m : OrderedMap String ν) (key : String) : Bool := m.has key || key ∈ inheritedKeys

-- The `length` of an inherited method is the number of its parameters.
def inheritedLength (key : String) : Nat :=
  if key = "__defineGetter__" ∨ key = "__defineSetter__" then
    2
  else if key ∈ ["constructor", "hasOwnProperty", "__lookupGetter__", "__lookupSetter__", "isPrototypeOf",
      "propertyIsEnumerable"] then
    1
  else
    0

theorem finds_of_not_mem {m : OrderedMap String ν} (h : key ∉ inheritedKeys) : finds m key = m.has key := by
  simp [finds, h]

def arrayIndex? (key : String) : Option Nat :=
  let n := key.toList.foldl (fun n c => 10 * n + (c.toNat - '0'.toNat)) 0
  if n.repr = key ∧ n < 2 ^ 32 - 1 then some n else none

def indexLe (a b : String × ν) : Prop := (arrayIndex? a.1).getD 0 ≤ (arrayIndex? b.1).getD 0

instance : DecidableRel (indexLe : String × ν → String × ν → Prop) :=
  fun _ _ => inferInstanceAs (Decidable (_ ≤ _))

instance : IsTrans (String × ν) indexLe := ⟨fun _ _ _ hab hbc => Nat.le_trans hab hbc⟩

instance : Std.Total (indexLe : String × ν → String × ν → Prop) := ⟨fun _ _ => Nat.le_total _ _⟩

def ownOrder (es : List (String × ν)) : List (String × ν) :=
  (es.filter fun e => (arrayIndex? e.1).isSome).insertionSort indexLe
    ++ es.filter fun e => (arrayIndex? e.1).isNone

def ownEntries (m : OrderedMap String ν) : List (String × ν) := ownOrder m.entries

theorem perm_ownEntries (m : OrderedMap String ν) : (ownEntries m).Perm m.entries := by
  refine ((perm_insertionSort _ _).append_right _).trans ?_
  simpa using filter_append_perm (fun e => (arrayIndex? e.1).isSome) m.entries

@[simp]
theorem mem_ownEntries : e ∈ ownEntries m ↔ e ∈ m.entries :=
  (perm_ownEntries m).mem_iff

section Filter

variable {α β : Type} (r : α → α → Prop) [DecidableRel r] [IsTrans α r] [Std.Total r]

omit [Std.Total r] in
theorem filter_orderedInsert (p : α → Bool) (a : α) {xs : List α} (hxs : xs.Pairwise r)
    : (xs.orderedInsert r a).filter p
      = if p a then (xs.filter p).orderedInsert r a else xs.filter p := by
  induction xs with
  | nil => simp [filter_cons]
  | cons x xs ih =>
    rw [pairwise_cons] at hxs
    rw [orderedInsert_cons]
    split
    . next hle =>
      rw [filter_cons]
      split
      . -- everything that is kept lies behind `x`, hence behind `a`
        cases hkept : (x :: xs).filter p with
        | nil => rfl
        | cons y ys =>
          have hy : y ∈ x :: xs := mem_of_mem_filter (hkept ▸ mem_cons_self)
          have : r a y := by
            cases mem_cons.mp hy with
            | inl heq => exact heq ▸ hle
            | inr hmem => exact IsTrans.trans a x y hle (hxs.1 y hmem)
          rw [orderedInsert_cons_of_le r ys this]
      . rfl
    . next hnle =>
      rw [filter_cons, ih hxs.2]
      cases hx : p x <;> cases ha : p a <;> simp [hx, hnle]

theorem filter_insertionSort (p : α → Bool) (xs : List α)
    : (xs.insertionSort r).filter p = (xs.filter p).insertionSort r := by
  induction xs with
  | nil => rfl
  | cons x xs ih =>
    rw [insertionSort_cons, filter_orderedInsert r p x (pairwise_insertionSort r xs), ih]
    rw [filter_cons]
    split <;> rfl

theorem flatMap_filter_ne_nil (f : α → List β) (xs : List α)
    : (xs.filter fun x => !(f x).isEmpty).flatMap f = xs.flatMap f := by
  induction xs with
  | nil => rfl
  | cons x xs ih =>
    rw [filter_cons, flatMap_cons]
    cases hx : f x with
    | nil => simp [ih]
    | cons y ys => simp [ih, hx]

end Filter

theorem filter_ownOrder (p : String × ν → Bool) (es : List (String × ν))
    : (ownOrder es).filter p = ownOrder (es.filter p) := by
  unfold ownOrder
  rw [filter_append, filter_insertionSort]
  simp only [filter_filter, Bool.and_comm]

theorem flatMap_ownEntries_congr {β : Type} (f : String × ν → List β)
    (h : (m.entries.filter fun e => !(f e).isEmpty) = m'.entries.filter fun e => !(f e).isEmpty)
    : (ownEntries m).flatMap f = (ownEntries m').flatMap f := by
  unfold ownEntries
  rw [← flatMap_filter_ne_nil f (ownOrder m.entries), filter_ownOrder, h, ← filter_ownOrder]
  rw [flatMap_filter_ne_nil]

end PlainObject
