/-
Module: DiskQueue.Json.Number
Purpose: The value of a numeral.
Trusted boundary: none
Main exports:
  Json.Number, Json.scanNumber
-/
import DiskQueue.Decimal.Shortest
import DiskQueue.Json.Scan

namespace DiskQueue.Json

/-!
A numeral without point and exponent that fits into 64 bits is an integer; minus zero and all other
numerals are floating-point numbers. Of their digits as many count as fit into 64 bits; the number
they form, rounded to a double, is then multiplied or divided by a power of ten.
-/

/-- The value of a numeral. -/
inductive Number where
  | integer (n : Int)
  | floating (x : Float)
deriving Repr, Inhabited

/-- Digits appended to a number as long as it fits into 64 bits, and the digits left over. -/
def absorb (n : Nat) : Bytes → Nat × Bytes
  | [] => (n, [])
  | d :: ds =>
    let next := 10 * n + Decimal.digitValue d
    if next < UInt64.size then absorb next ds else (n, d :: ds)

/-- The double nearest to a power of ten, for exponents up to 308. -/
def powerOfTen (n : Nat) : Float := Float.ofScientific 1 false n

/-- A double divided by a power of ten, by steps of at most `10 ^ 308`. -/
def divideByPower (x : Float) (n : Nat) : Float :=
  if n ≤ 308 then x / powerOfTen n
  else if x == 0 then x
  else divideByPower (x / powerOfTen 308) (n - 308)
termination_by n

/-- The double for a number of at most 64 bits times a power of ten. -/
def scaled (n : Nat) (e : Int) : Except Fault Float :=
  let x := (UInt64.ofNat n).toFloat
  if e < 0 then .ok (divideByPower x e.natAbs)
  else if e ≤ 308 then
    let y := x * powerOfTen e.natAbs
    if y.isInf then .error .numberOutOfRange else .ok y
  else if x == 0 then .ok x
  else .error .numberOutOfRange

/-- From here on exponents are not told apart. -/
def exponentLimit : Nat := UInt32.size / 2

/-- The digits of an exponent as a number. -/
def exponentSize (ds : Bytes) : Nat := Decimal.numberUpTo exponentLimit (ds.map Decimal.digitValue)

/-- The exponent written in a numeral. -/
def Numeral.writtenExponent (n : Numeral) : Int :=
  match n.exponent with
  | none => 0
  | some (true, ds) => exponentSize ds
  | some (false, ds) => -(exponentSize ds : Int)

/-- The value of a numeral with a sign. -/
def signed (negative : Bool) (x : Float) : Number := .floating (if negative then -x else x)

/-- The value of a numeral that is not an integer of 64 bits. -/
def Numeral.approximate (n : Numeral) : Except Fault Number :=
  let (whole, excess) := absorb 0 n.whole
  let (all, ignored) := absorb whole n.fraction
  let places : Int := n.fraction.length - ignored.length
  (scaled all (excess.length - places + n.writtenExponent)).map (signed n.negative)

/-- The value of a numeral. -/
def Numeral.value (n : Numeral) : Except Fault Number :=
  match absorb 0 n.whole, n.fraction, n.exponent with
  | (m, []), [], none =>
    if n.negative = false then .ok (.integer m)
    else if 0 < m ∧ m ≤ UInt64.size / 2 then .ok (.integer (-m))
    else .ok (signed true (UInt64.ofNat m).toFloat)
  | _, _, _ => n.approximate

/-- A number, from its sign or first digit on. -/
def scanNumber (s : Bytes) : Scan Number :=
  match scanNumeral s with
  | .error f => .error f
  | .ok (n, rest) =>
    match n.value with
    | .error f => .error f
    | .ok v => .ok (v, rest)

/-- How a number is named in a message. -/
def Number.found : Number → Found
  | .integer n => .integer n
  | .floating x => .floating (Decimal.Shortest.render x)

end DiskQueue.Json
