/-
Module: DiskQueue.Saturating
Purpose: Arithmetic on words that stops at the ends of the range.
Trusted boundary: none
Main exports:
  Saturating.add, Saturating.sub, Saturating.mul
-/

namespace DiskQueue.Saturating

/-!
Sums and products that do not fit into 64 bits become the greatest word, and
differences below zero become zero.
-/

/-- The greatest word. -/
def greatest : Nat := UInt64.size - 1

/-- The word for a number, or the greatest word. -/
def ofNat (n : Nat) : UInt64 := UInt64.ofNat (min n greatest)

/-- A sum. -/
def add (a b : UInt64) : UInt64 := ofNat (a.toNat + b.toNat)

/-- A difference. -/
def sub (a b : UInt64) : UInt64 := ofNat (a.toNat - b.toNat)

/-- A product. -/
def mul (a b : UInt64) : UInt64 := ofNat (a.toNat * b.toNat)

theorem toNat_ofNat (n : Nat) : (ofNat n).toNat = min n greatest := by
  unfold ofNat greatest UInt64.size
  rw [UInt64.toNat_ofNat']
  omega

theorem toNat_add (a b : UInt64) : (add a b).toNat = min (a.toNat + b.toNat) greatest :=
  toNat_ofNat _

theorem toNat_sub (a b : UInt64) : (sub a b).toNat = a.toNat - b.toNat := by
  have h := a.toNat_lt
  rw [sub, toNat_ofNat, greatest, UInt64.size]
  omega

theorem toNat_mul (a b : UInt64) : (mul a b).toNat = min (a.toNat * b.toNat) greatest :=
  toNat_ofNat _

end DiskQueue.Saturating
