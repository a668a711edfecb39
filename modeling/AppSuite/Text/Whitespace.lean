import Mathlib

/-!
This module contains texts as lists of characters, and how blank characters are trimmed from their
ends.
-/

namespace Text

open List

variable (blank : Char → Bool) (s : List Char)

def trimStart : List Char := s.dropWhile blank

def trimEnd : List Char := s.rdropWhile blank

def trim : List Char := trimEnd blank (trimStart blank s)

def leading : List Char := s.takeWhile blank

def trailing : List Char :=
  (trimStart blank s).rtakeWhile blank

section Trim

variable {blank : Char → Bool} {s w : List Char} {c : Char}

theorem leading_append_trim_append_trailing
    : leading blank s ++ (trim blank s ++ trailing blank s) = s := by
  unfold leading trim trailing trimEnd trimStart
  rw [rdropWhile_append_rtakeWhile, takeWhile_append_dropWhile]

theorem blank_of_mem_leading (h : c ∈ leading blank s) : blank c = true :=
  mem_takeWhile_imp h

theorem blank_of_mem_trailing (h : c ∈ trailing blank s) : blank c = true :=
  mem_rtakeWhile_imp h

theorem trimEnd_append_blank (hw : ∀ c ∈ w, blank c = true)
    : trimEnd blank (s ++ w) = trimEnd blank s := by
  unfold trimEnd List.rdropWhile
  rw [reverse_append, dropWhile_append_of_pos]
  simpa using hw

theorem trimEnd_append_of_ne_nil (h : trimEnd blank s ≠ [])
    : trimEnd blank (w ++ s) = w ++ trimEnd blank s := by
  unfold trimEnd List.rdropWhile at *
  rw [reverse_append, dropWhile_append]
  simp only [ne_eq, reverse_eq_nil_iff] at h
  simp [h]

theorem trimEnd_eq_nil_iff : trimEnd blank s = [] ↔ ∀ c ∈ s, blank c = true :=
  rdropWhile_eq_nil_iff

theorem trimEnd_cons (h : blank c = false) : trimEnd blank (c :: s) = c :: trimEnd blank s := by
  by_cases hs : trimEnd blank s = []
  . rw [hs, ← singleton_append, trimEnd_append_blank (trimEnd_eq_nil_iff.mp hs)]
    simp [trimEnd, rdropWhile_singleton, h]
  . rw [← singleton_append, trimEnd_append_of_ne_nil hs]
    rfl

theorem trimEnd_eq_self_iff : trimEnd blank s = s ↔ ∀ c, s.getLast? = some c → blank c = false := by
  unfold trimEnd
  cases s using List.reverseRecOn <;> simp

theorem trimEnd_isPrefix : trimEnd blank s <+: s :=
  rdropWhile_prefix blank s

theorem trimEnd_isPrefix_trimEnd_append : trimEnd blank s <+: trimEnd blank (s ++ w) := by
  by_cases h : trimEnd blank w = []
  . have hsame : trimEnd blank (s ++ w) = trimEnd blank s :=
      trimEnd_append_blank (trimEnd_eq_nil_iff.mp h)
    exact hsame.symm ▸ prefix_refl _
  . rw [trimEnd_append_of_ne_nil h]
    exact trimEnd_isPrefix.trans (prefix_append _ _)

theorem length_trimEnd_lt (h : trimEnd blank s ≠ s) : (trimEnd blank s).length < s.length := by
  apply Nat.lt_of_le_of_ne trimEnd_isPrefix.length_le
  intro hlen
  exact h (trimEnd_isPrefix.eq_of_length hlen)

theorem trim_eq_trimEnd (h : ∀ c, s.head? = some c → blank c = false)
    : trim blank s = trimEnd blank s := by
  unfold trim trimStart
  cases s with
  | nil => rfl
  | cons c s => rw [dropWhile_cons_of_neg (by simpa using h)]

theorem trim_append_blank (hw : ∀ c ∈ w, blank c = true) : trim blank (s ++ w) = trim blank s := by
  unfold trim trimStart
  rw [dropWhile_append]
  split
  . next h =>
    rw [List.isEmpty_iff] at h
    rw [h, dropWhile_eq_nil_iff.mpr hw]
  . exact trimEnd_append_blank hw

theorem trim_blank_append (hw : ∀ c ∈ w, blank c = true) : trim blank (w ++ s) = trim blank s := by
  unfold trim trimStart
  rw [dropWhile_append_of_pos hw]

theorem trim_eq_nil_iff : trim blank s = [] ↔ ∀ c ∈ s, blank c = true := by
  constructor
  . intro h c hc
    rw [← takeWhile_append_dropWhile (p := blank) (l := s), mem_append] at hc
    cases hc with
    | inl hc => exact blank_of_mem_leading hc
    | inr hc => exact trimEnd_eq_nil_iff.mp h c hc
  . intro h
    rw [← append_nil s, trim_blank_append h]
    rfl

theorem blank_getLast?_trim (h : (trim blank s).getLast? = some c) : blank c = false := by
  apply trimEnd_eq_self_iff.mp _ c h
  exact rdropWhile_idempotent blank _

end Trim

def isWhiteSpace (c : Char) : Bool :=
  (9 ≤ c.toNat && c.toNat ≤ 13) || c.toNat = 0x20 || c.toNat = 0x85 || c.toNat = 0xA0
    || c.toNat = 0x1680 || (0x2000 ≤ c.toNat && c.toNat ≤ 0x200A) || c.toNat = 0x2028
    || c.toNat = 0x2029 || c.toNat = 0x202F || c.toNat = 0x205F || c.toNat = 0x3000

namespace Python

-- `str.strip` also removes the four information separators.
def isSpace (c : Char) : Bool := isWhiteSpace c || (0x1C ≤ c.toNat && c.toNat ≤ 0x1F)

end Python

namespace Js

-- `String.prototype.trim` leaves U+0085 and removes the byte order mark.
def isSpace (c : Char) : Bool := (isWhiteSpace c && c.toNat ≠ 0x85) || c.toNat = 0xFEFF

def trim (s : String) : String := String.ofList (Text.trim isSpace s.toList)

-- The length of a string counts UTF-16 code units.
def length (s : String) : Nat := (s.toList.map fun c => if c.toNat < 0x10000 then 1 else 2).sum

end Js

end Text
