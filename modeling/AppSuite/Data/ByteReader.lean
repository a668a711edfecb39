import Mathlib

/-!
This module contains readers of byte sequences.
-/

namespace ByteReader

def take? (n : Nat) (bytes : List UInt8) : Option (List UInt8 × List UInt8) :=
  if bytes.length < n then none else some (bytes.take n, bytes.drop n)

variable {n : Nat}

theorem take?_eq_some_iff {bytes read rest : List UInt8}
    : take? n bytes = some (read, rest) ↔ read.length = n ∧ bytes = read ++ rest := by
  unfold take?
  split
  . next hlt =>
    simp only [reduceCtorEq, false_iff, not_and]
    rintro hread rfl
    rw [List.length_append] at hlt
    omega
  . next hle =>
    rw [Option.some.injEq, Prod.mk.injEq]
    constructor
    . rintro ⟨rfl, rfl⟩
      exact ⟨List.length_take_of_le (by omega), (List.take_append_drop n bytes).symm⟩
    . rintro ⟨rfl, rfl⟩
      exact ⟨List.take_left, List.drop_left⟩

theorem take?_append {read : List UInt8} (h : read.length = n) (rest : List UInt8)
    : take? n (read ++ rest) = some (read, rest) := by
  rw [take?_eq_some_iff]
  exact ⟨h, rfl⟩

def fromBe (bytes : List UInt8) : Nat := bytes.foldl (fun value byte => value * 256 + byte.toNat) 0

def toBe32 (n : Nat) : List UInt8 :=
  [UInt8.ofNat (n / 2 ^ 24), UInt8.ofNat (n / 2 ^ 16), UInt8.ofNat (n / 2 ^ 8), UInt8.ofNat n]

@[simp]
theorem length_toBe32 (n : Nat) : (toBe32 n).length = 4 := rfl

theorem fromBe_toBe32 (h : n < 2 ^ 32) : fromBe (toBe32 n) = n := by
  simp only [fromBe, toBe32, List.foldl_cons, List.foldl_nil, UInt8.toNat_ofNat']
  omega

end ByteReader
