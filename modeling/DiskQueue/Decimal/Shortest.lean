/-
Module: DiskQueue.Decimal.Shortest
Purpose: The shortest decimal of a binary fraction.
Trusted boundary: none
Main exports:
  Decimal.Shortest.render
-/

namespace DiskQueue.Decimal.Shortest

/-!
A finite double stands for `m * 2 ^ q`. The reals that round to it form an interval around that
value, its ends included when `m` is even. The shortest decimal is found on the grids of one, two,
... seventeen digits: the first grid with a point in the interval wins, and of two such points the
nearer one, or the even one if both are equally near. All comparisons are between natural numbers.
-/

/-- A positive rational number as a quotient of natural numbers. -/
structure Ratio where
  num : Nat
  den : Nat
deriving Repr, DecidableEq

/-- The ratio `n * 2 ^ e`. -/
def Ratio.binary (n : Nat) (e : Int) : Ratio :=
  if 0 ≤ e then ⟨n * Nat.pow 2 e.toNat, 1⟩ else ⟨n, Nat.pow 2 (-e).toNat⟩

/-- The ratio `n * 10 ^ e`. -/
def Ratio.decimal (n : Nat) (e : Int) : Ratio :=
  if 0 ≤ e then ⟨n * Nat.pow 10 e.toNat, 1⟩ else ⟨n, Nat.pow 10 (-e).toNat⟩

/-- Order of two ratios. -/
def Ratio.le (a b : Ratio) : Bool := a.num * b.den ≤ b.num * a.den

/-- Strict order of two ratios. -/
def Ratio.lt (a b : Ratio) : Bool := a.num * b.den < b.num * a.den

/-- The distance between two ratios. -/
def Ratio.distance (a b : Ratio) : Ratio :=
  ⟨(a.num * b.den - b.num * a.den) + (b.num * a.den - a.num * b.den), a.den * b.den⟩

/-- The parts of a finite double: its sign, and `m * 2 ^ q` for its absolute value. `atEdge` tells
that the next smaller double is only half as far away as the next larger one. -/
structure Binary where
  negative : Bool
  m : Nat
  q : Int
  atEdge : Bool
deriving Repr, DecidableEq

/-- The parts of a finite double, read off its bits. -/
def Binary.ofBits (bits : UInt64) : Binary :=
  let n := bits.toNat
  let exponent : Nat := n / Nat.pow 2 52 % Nat.pow 2 11
  let fraction : Nat := n % Nat.pow 2 52
  let negative := decide (Nat.pow 2 63 ≤ n)
  if exponent = 0 then ⟨negative, fraction, -1074, false⟩
  else ⟨negative, Nat.pow 2 52 + fraction, (exponent : Int) - 1075, fraction = 0 ∧ 1 < exponent⟩

/-- The absolute value. -/
def Binary.value (b : Binary) : Ratio := Ratio.binary b.m b.q

/-- Whether a positive real rounds to the absolute value. -/
def Binary.holds (b : Binary) (r : Ratio) : Bool :=
  let low := Ratio.binary (if b.atEdge then 4 * b.m - 1 else 4 * b.m - 2) (b.q - 2)
  let high := Ratio.binary (4 * b.m + 2) (b.q - 2)
  if b.m % 2 = 0 then low.le r && r.le high else low.lt r && r.lt high

/-- The exponent of the leading decimal digit of a positive ratio. -/
def leadingExponent (r : Ratio) : Int :=
  if r.den ≤ r.num then ((Nat.toDigits 10 (r.num / r.den)).length : Int) - 1
  else
    let guess := (Nat.toDigits 10 (r.den / r.num)).length - 1
    if r.den ≤ r.num * Nat.pow 10 guess then -(guess : Int) else -((guess : Int) + 1)

/-- Whether the second of two neighbouring points of a grid is chosen: the nearer one, or the even
one if both are equally near. -/
def prefersUpper (r : Ratio) (lower upper : Ratio) (isOdd : Bool) : Bool :=
  if (upper.distance r).lt (lower.distance r) then true
  else if (lower.distance r).lt (upper.distance r) then false
  else isOdd

/-- The nearest points below and above a value on the grid of `places` digits, as far as they round
to it, or one of them if both do. -/
def candidates (b : Binary) (places : Nat) : List (Nat × Int) :=
  let r := b.value
  let scale := leadingExponent r + 1 - places
  let unit := Ratio.decimal 1 scale
  let below := r.num * unit.den / (r.den * unit.num)
  let here := [below, below + 1].filter fun n => b.holds (Ratio.decimal n scale)
  match here with
  | [x, y] =>
    if prefersUpper r (Ratio.decimal x scale) (Ratio.decimal y scale) (x % 2 = 1) then [(y, scale)]
    else [(x, scale)]
  | xs => xs.map fun n => (n, scale)

/-- The shortest decimal `n * 10 ^ e` that rounds to a positive double. Seventeen digits are always
enough, so the exact value of the last grid is a point that is never reached. -/
def decimal (b : Binary) : Nat × Int :=
  match (List.range 17).findSome? fun i => (candidates b (i + 1)).head? with
  | some found => found
  | none => (b.m, b.q)

/-- The digits of a number without the zeros at its end, and how many of those there were. -/
def stripZeros (n : Nat) : List Char × Nat :=
  let ds := (Nat.toDigits 10 n).reverse
  ((ds.dropWhile (· = '0')).reverse, (ds.takeWhile (· = '0')).length)

/-- How a double is laid out: the leading exponents written positionally. -/
structure Layout where
  leastPositional : Int
  greatestPositional : Int
deriving Repr, DecidableEq

/-- Numbers in documents: positional from `0.00001` up to sixteen digits before the point, always
with a point or an exponent, and the exponent always with its sign. -/
def documentLayout : Layout := ⟨-5, 15⟩

/-- The text of digits `ds`, the first of which has the decimal exponent `lead`. -/
def Layout.render (layout : Layout) (ds : List Char) (lead : Int) : List Char :=
  if layout.leastPositional ≤ lead ∧ lead ≤ layout.greatestPositional then
    if lead < 0 then '0' :: '.' :: List.replicate ((-lead).toNat - 1) '0' ++ ds
    else
      let whole := lead.toNat + 1
      let filled := ds ++ List.replicate (whole - ds.length) '0'
      let rest := filled.drop whole
      filled.take whole ++ '.' :: (if rest = [] then ['0'] else rest)
  else
    let mantissa := match ds with
      | d :: [] => [d]
      | d :: more => d :: '.' :: more
      | [] => []
    mantissa ++ 'e' :: (if lead < 0 then '-' else '+') :: Nat.toDigits 10 lead.natAbs

/-- The text of a finite double: the fewest digits that read back to it. -/
def render (x : Float) : String :=
  let b := Binary.ofBits x.toBits
  let sign := if b.negative then ['-'] else []
  if b.m = 0 then String.ofList (sign ++ ['0', '.', '0'])
  else
    let (n, e) := decimal b
    let (ds, zeros) := stripZeros n
    let lead := (ds.length : Int) - 1 + e + zeros
    String.ofList (sign ++ documentLayout.render ds lead)

end DiskQueue.Decimal.Shortest
