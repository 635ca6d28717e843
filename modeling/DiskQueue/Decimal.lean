/-
Module: DiskQueue.Decimal
Purpose: Decimal numbers in text.
Trusted boundary: none
Main exports:
  Decimal.digits, Decimal.ofInt, Decimal.padded, Decimal.numberUpTo_eq,
  Decimal.readInt64?, Decimal.readUInt64?
-/
import DiskQueue.Text.Utf8

namespace DiskQueue.Decimal

/-!
Numbers are written without leading zeros, or padded with zeros to a width in which the sign
counts. They are read as one optional sign and ASCII digits, up to a limit: a greater number
reads as the limit. A reader of a range takes a limit outside of it.
-/

/-- ASCII digits. -/
def isDigit (b : UInt8) : Bool := 0x30 ≤ b && b ≤ 0x39

/-- The number a digit stands for. -/
def digitValue (b : UInt8) : Nat := b.toNat - 0x30

/-- The number that digits stand for. -/
def number (ds : List Nat) : Nat := ds.foldl (fun n d => 10 * n + d) 0

/-- The number that digits stand for, or a limit where it is greater. No intermediate number
is greater than the limit, however many digits there are. -/
def numberUpTo (limit : Nat) (ds : List Nat) : Nat := ds.foldl (fun n d => min limit (10 * n + d)) 0

/-- Cutting at every digit is cutting once at the end. -/
theorem numberUpTo_eq (limit : Nat) (ds : List Nat) :
    numberUpTo limit ds = min limit (number ds) := by
  have cut (n : Nat) : ds.foldl (fun n d => min limit (10 * n + d)) (min limit n)
      = min limit (ds.foldl (fun n d => 10 * n + d) n) := by
    induction ds generalizing n with
    | nil => rfl
    | cons d ds ih =>
      have step : min limit (10 * min limit n + d) = min limit (10 * n + d) := by omega
      rw [List.foldl_cons, List.foldl_cons, step, ih]
  simpa [numberUpTo, number] using cut 0

/-- The digits of a number, the first one not zero unless it is the only one. -/
def digits (n : Nat) : Bytes := (Nat.toDigits 10 n).map fun c => c.val.toUInt8

/-- The digits of a number with a minus sign before them if it is negative. -/
def ofInt (n : Int) : Bytes :=
  if n < 0 then 0x2D :: digits n.natAbs else digits n.natAbs

/-- Zeros before a run of digits, up to a width. -/
def zeroPad (width : Nat) (ds : Bytes) : Bytes := List.replicate (width - ds.length) 0x30 ++ ds

/-- A number of at least `width` places, filled with zeros after the sign, which counts as one. -/
def padded (width : Nat) (n : Int) : Bytes :=
  if n < 0 then 0x2D :: zeroPad (width - 1) (digits n.natAbs) else zeroPad width (digits n.natAbs)

/-- One or more ASCII digits as a number up to a limit. -/
def readNat? (limit : Nat) (cs : List Char) : Option Nat :=
  if cs ≠ [] ∧ cs.all Char.isDigit then
    some (numberUpTo limit (cs.map fun c => c.toNat - '0'.toNat))
  else none

/-- A natural number up to a limit with an optional plus sign. -/
def readUnsigned? (limit : Nat) : List Char → Option Nat
  | '+' :: rest => readNat? limit rest
  | cs => readNat? limit cs

/-- An integer with an optional sign, up to a limit on either side of zero. -/
def readInt? (limit : Nat) : List Char → Option Int
  | '-' :: rest => (readNat? limit rest).map fun n => -(n : Int)
  | '+' :: rest => (readNat? limit rest).map fun n => (n : Int)
  | cs => (readNat? limit cs).map fun n => (n : Int)

/-- An integer of 64 bits with an optional sign. -/
def readInt64? (cs : List Char) : Option Int64 :=
  (readInt? UInt64.size cs).bind fun n =>
    if Int64.minValue.toInt ≤ n ∧ n ≤ Int64.maxValue.toInt then some (Int64.ofInt n) else none

/-- A natural number of 64 bits with an optional plus sign. -/
def readUInt64? (cs : List Char) : Option UInt64 :=
  (readUnsigned? UInt64.size cs).bind fun n =>
    if n < UInt64.size then some (UInt64.ofNat n) else none

/-- The sign of a negative number takes one of the places. -/
example : padded 13 (-1) = Utf8.encode "-000000000001" := by decide +kernel

/-- A number wider than the places asked for is written in full. -/
example : padded 6 1234567 = Utf8.encode "1234567" := by decide +kernel

end DiskQueue.Decimal
