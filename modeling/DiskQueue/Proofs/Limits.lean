/-
Module: DiskQueue.Proofs.Limits
Purpose: What is granted for a number, and for the text that a number is written as.
Trusted boundary: none
Main exports:
  Limits.closest_eq, Limits.closest_of_large, Limits.closest_of_accepted,
  Decimal.readInt64?_ofInt, Limits.Wish.read_megabytes, Limits.toNat_choose,
  Limits.make?_storage
-/
import DiskQueue.Limits
import DiskQueue.Settings
import DiskQueue.Proofs.Digits

namespace DiskQueue

/-!
Numbers with a sign are compared with limits without one by reading the bits of the one as
the other. As long as the least value is below `2^63` the outcome is that of a comparison
of integers, so a number is moved to the nearest point of an interval. From there on the least
value is read as a negative number: no number without a sign is below it, and all of them are
left outside the limits.

A text that was written as a decimal number is read back as that number, also at both ends
of the range, so it makes no difference which of the two is handed on.
-/

/-! ### Numbers -/

namespace Limits

theorem toInt_toInt64 {n : UInt64} (small : n.toNat < 2 ^ 63) : n.toInt64.toInt = n.toNat := by
  have bits : n.toInt64.toInt = if 2 * n.toNat < 2 ^ 64 then (n.toNat : Int)
      else (n.toNat : Int) - (2 ^ 64 : Nat) := BitVec.toInt_eq_toNat_cond n.toBitVec
  rw [bits, if_pos (by omega)]

theorem toNat_toUInt64 {n : Int64} (pos : 0 ≤ n.toInt) : (n.toUInt64.toNat : Int) = n.toInt := by
  have bits : n.toInt = if 2 * n.toUInt64.toNat < 2 ^ 64 then (n.toUInt64.toNat : Int)
      else (n.toUInt64.toNat : Int) - (2 ^ 64 : Nat) := BitVec.toInt_eq_toNat_cond n.toBitVec
  have below := n.toUInt64.toNat_lt
  split at bits
  · exact bits.symm
  · omega

theorem toInt_toInt64_of_large {n : UInt64} (large : 2 ^ 63 ≤ n.toNat) :
    n.toInt64.toInt = (n.toNat : Int) - 2 ^ 64 := by
  have bits : n.toInt64.toInt = if 2 * n.toNat < 2 ^ 64 then (n.toNat : Int)
      else (n.toNat : Int) - (2 ^ 64 : Nat) := BitVec.toInt_eq_toNat_cond n.toBitVec
  rw [bits, if_neg (by omega)]
  rfl

theorem toNat_toUInt64_of_neg {n : Int64} (neg : n.toInt < 0) :
    (n.toUInt64.toNat : Int) = n.toInt + 2 ^ 64 := by
  have bits : n.toInt = if 2 * n.toUInt64.toNat < 2 ^ 64 then (n.toUInt64.toNat : Int)
      else (n.toUInt64.toNat : Int) - (2 ^ 64 : Nat) := BitVec.toInt_eq_toNat_cond n.toBitVec
  split at bits <;> omega

/-- A number is moved to the nearest point between the limits. -/
theorem closest_eq (limits : Limits) (small : limits.minimum.toNat < 2 ^ 63) (value : Int64) :
    ((limits.closest value).toNat : Int)
      = max (limits.minimum.toNat : Int) (min limits.maximum.toNat value.toInt) := by
  have least := toInt_toInt64 small
  have ordered : limits.minimum.toNat ≤ limits.maximum.toNat :=
    Nat.le_trans limits.minimum_le_default limits.default_le_maximum
  unfold closest
  split
  · rename_i below
    rw [Int64.lt_iff_toInt_lt, least] at below
    omega
  rename_i above
  rw [Int64.lt_iff_toInt_lt, least] at above
  have same : (value.toUInt64.toNat : Int) = value.toInt := toNat_toUInt64 (by omega)
  split
  · rename_i beyond
    rw [UInt64.lt_iff_toNat_lt] at beyond
    omega
  · rename_i within
    rw [UInt64.lt_iff_toNat_lt] at within
    omega

end Limits

/-! ### Texts -/

namespace Decimal

/-- ASCII bytes as characters. -/
def chars (bs : Bytes) : List Char := bs.map fun b => Char.ofNat b.toNat

/-- There are ten digits. -/
theorem exists_of_isDigit {b : UInt8} (h : isDigit b = true) :
    ∃ d < 10, b = UInt8.ofNat (0x30 + d) := by
  obtain ⟨small, single⟩ := digits_digitValue h
  rw [digits_of_lt small, List.cons.injEq] at single
  exact ⟨digitValue b, small, single.1.symm⟩

theorem isDigit_char {b : UInt8} (h : isDigit b = true) :
    (Char.ofNat b.toNat).isDigit = true ∧ (Char.ofNat b.toNat).toNat - '0'.toNat = digitValue b := by
  obtain ⟨d, small, rfl⟩ := exists_of_isDigit h
  have digit : ∀ d < 10, (Char.ofNat (UInt8.ofNat (0x30 + d)).toNat).isDigit = true ∧
      (Char.ofNat (UInt8.ofNat (0x30 + d)).toNat).toNat - '0'.toNat
        = digitValue (UInt8.ofNat (0x30 + d)) := by decide
  exact digit d small

/-- Digits are read as the number that they were written for. -/
theorem readNat?_digits (limit n : Nat) : readNat? limit (chars (digits n)) = some (min limit n) := by
  have nonempty : chars (digits n) ≠ [] := by simp [chars, digits_ne_nil]
  have allDigits : (chars (digits n)).all Char.isDigit = true := by
    rw [chars, List.all_map, List.all_eq_true]
    exact fun b hb => (isDigit_char (isDigit_of_mem_digits hb)).1
  have values : (chars (digits n)).map (fun c => c.toNat - '0'.toNat)
      = (digits n).map digitValue := by
    rw [chars, List.map_map]
    exact List.map_congr_left fun b hb => (isDigit_char (isDigit_of_mem_digits hb)).2
  rw [readNat?, if_pos ⟨nonempty, allDigits⟩, values, numberUpTo_eq, number_digits]

/-- Digits begin with no sign. -/
theorem readInt?_digits (limit n : Nat) :
    readInt? limit (chars (digits n)) = some ((min limit n : Nat) : Int) := by
  have read := readNat?_digits limit n
  have first : ∀ c rest, chars (digits n) = c :: rest → c.isDigit = true := by
    intro c rest text
    have member : c ∈ chars (digits n) := by
      rw [text]
      exact List.mem_cons_self
    obtain ⟨b, hb, rfl⟩ := List.mem_map.mp member
    exact (isDigit_char (isDigit_of_mem_digits hb)).1
  unfold readInt?
  split
  · rename_i text
    exact absurd (first _ _ text) (by decide)
  · rename_i text
    exact absurd (first _ _ text) (by decide)
  · rw [read]
    rfl

theorem readInt?_ofInt {limit : Nat} {n : Int} (fits : n.natAbs ≤ limit) :
    readInt? limit (chars (ofInt n)) = some n := by
  unfold ofInt
  split
  · have sign : chars (0x2D :: digits n.natAbs) = '-' :: chars (digits n.natAbs) := rfl
    have negated : (-(n.natAbs : Int)) = n := by omega
    rw [sign, readInt?, readNat?_digits, Nat.min_eq_right fits]
    exact congrArg some negated
  · rw [readInt?_digits, Nat.min_eq_right fits, Option.some.injEq]
    omega

/-- Every integer of 64 bits is read back from its decimal text. -/
theorem readInt64?_ofInt (n : Int64) : readInt64? (chars (ofInt n.toInt)) = some n := by
  have least := n.le_toInt
  have most := n.toInt_lt
  have fits : n.toInt.natAbs ≤ UInt64.size := by
    rw [UInt64.size]
    omega
  have range : Int64.minValue.toInt ≤ n.toInt ∧ n.toInt ≤ Int64.maxValue.toInt :=
    ⟨n.minValue_le_toInt, n.toInt_le⟩
  rw [readInt64?, readInt?_ofInt fits, Option.bind_some, if_pos range, Int64.ofInt_toInt]

theorem mem_ofInt {n : Int} {b : UInt8} (h : b ∈ ofInt n) : b = 0x2D ∨ isDigit b = true := by
  unfold ofInt at h
  split at h
  · rcases List.mem_cons.mp h with sign | digit
    · exact .inl sign
    · exact .inr (isDigit_of_mem_digits digit)
  · exact .inr (isDigit_of_mem_digits h)

end Decimal

/-- A text without blanks has none at its ends. -/
theorem Blank.trim_eq_self {cs : List Char} (h : ∀ c ∈ cs, isBlank c = false) : trim cs = cs := by
  have whole : ∀ l : List Char, (∀ c ∈ l, isBlank c = false) → l.dropWhile isBlank = l := by
    intro l none
    cases l with
    | nil => rfl
    | cons c l => exact List.dropWhile_cons_of_neg (by rw [none c List.mem_cons_self]; decide)
  rw [trim, whole cs h, whole cs.reverse fun c hc => h c (List.mem_reverse.mp hc),
    List.reverse_reverse]

namespace Limits

/-- A number asks for itself as a text. -/
theorem Wish.read_megabytes (n : Int64) :
    Wish.read (some (Capacity.megabytes n).asText) = .number n := by
  have text : (Capacity.megabytes n).asText.toList = Decimal.chars (Decimal.ofInt n.toInt) :=
    String.toList_ofList
  have blankless : ∀ c ∈ Decimal.chars (Decimal.ofInt n.toInt), Blank.isBlank c = false := by
    have digit : ∀ d < 10, Blank.isBlank (Char.ofNat (UInt8.ofNat (0x30 + d)).toNat) = false := by
      decide
    intro c hc
    obtain ⟨b, hb, rfl⟩ := List.mem_map.mp hc
    rcases Decimal.mem_ofInt hb with rfl | hDigit
    · decide
    · obtain ⟨d, small, rfl⟩ := Decimal.exists_of_isDigit hDigit
      exact digit d small
  have read := Decimal.readInt64?_ofInt n
  simp only [Wish.read, text, Blank.trim_eq_self blankless]
  split
  · rename_i empty
    rw [empty] at read
    cases read
  · simp only [read]

/-- What a text is granted is the number it asks for, moved between the limits, or else the
default. -/
theorem toNat_choose (limits : Limits) (small : limits.minimum.toNat < 2 ^ 63)
    (text : Option String) :
    ((limits.choose text).toNat : Int) = match Wish.read text with
      | .number n => max (limits.minimum.toNat : Int) (min limits.maximum.toNat n.toInt)
      | _ => limits.default.toNat := by
  unfold choose
  cases Wish.read text with
  | number n => exact limits.closest_eq small n
  | nothing | unreadable => rfl

/-- The limits of the capacity do not contradict each other. -/
theorem make?_storage :
    make? storage.name storage.minimum storage.maximum storage.default = .ok storage := rfl

/-! ### Limits that are accepted -/

variable {limits : Limits}

theorem make?_eq_ok {name : String} {minimum maximum default : UInt64}
    (accepted : make? name minimum maximum default = .ok limits) :
    limits.minimum = minimum ∧ limits.maximum = maximum ∧ limits.default = default := by
  unfold make? at accepted
  split at accepted
  · cases accepted
  · split at accepted
    · cases accepted
      exact ⟨rfl, rfl, rfl⟩
    · cases accepted

/-- What is granted for a number lies between the limits. -/
theorem closest_within (small : limits.minimum.toNat < 2 ^ 63) (value : Int64) :
    limits.minimum ≤ limits.closest value ∧ limits.closest value ≤ limits.maximum := by
  have exact := limits.closest_eq small value
  have ordered : limits.minimum.toNat ≤ limits.maximum.toNat :=
    Nat.le_trans limits.minimum_le_default limits.default_le_maximum
  rw [UInt64.le_iff_toNat_le, UInt64.le_iff_toNat_le]
  omega

/-- For a greater number no less is granted. -/
theorem closest_mono (small : limits.minimum.toNat < 2 ^ 63) {a b : Int64} (h : a ≤ b) :
    limits.closest a ≤ limits.closest b := by
  have lower := limits.closest_eq small a
  have higher := limits.closest_eq small b
  rw [Int64.le_iff_toInt_le] at h
  rw [UInt64.le_iff_toNat_le]
  omega

/-- A least value of `2^63` or more is none for the numbers without a sign, and the others are
taken for the words that they are stored as. -/
theorem closest_of_large (large : 2 ^ 63 ≤ limits.minimum.toNat) (value : Int64) :
    ((limits.closest value).toNat : Int)
      = if 0 ≤ value.toInt then value.toInt
        else max (limits.minimum.toNat : Int) (min limits.maximum.toNat (value.toInt + 2 ^ 64)) := by
  have ordered : limits.minimum.toNat ≤ limits.maximum.toNat :=
    Nat.le_trans limits.minimum_le_default limits.default_le_maximum
  have least : limits.minimum.toInt64.toInt = (limits.minimum.toNat : Int) - 2 ^ 64 :=
    toInt_toInt64_of_large large
  have bounded := limits.minimum.toNat_lt
  simp only [closest, Int64.lt_iff_toInt_lt, UInt64.lt_iff_toNat_lt, least]
  by_cases pos : 0 ≤ value.toInt
  · have same := toNat_toUInt64 pos
    have most := value.toInt_lt
    rw [if_pos pos, if_neg (by omega), if_neg (by omega)]
    exact same
  · have same := toNat_toUInt64_of_neg (Int.not_le.mp pos)
    rw [if_neg pos]
    split
    · omega
    split <;> omega

/-- Numbers are moved to the nearest point between the limits exactly if the least value is below
`2^63`; then what is granted lies between the limits, for a number as for a text that is one, and
a greater number is granted no less. From `2^63` on, a number without a sign is granted as it is,
and lies below the least value. -/
theorem closest_of_accepted {name : String} {minimum maximum default : UInt64}
    (accepted : make? name minimum maximum default = .ok limits) :
    ((∀ value, ((limits.closest value).toNat : Int)
        = max (minimum.toNat : Int) (min maximum.toNat value.toInt)) ↔ minimum.toNat < 2 ^ 63) ∧
    (minimum.toNat < 2 ^ 63 →
      (∀ value, minimum ≤ limits.closest value ∧ limits.closest value ≤ maximum) ∧
      (∀ a b, a ≤ b → limits.closest a ≤ limits.closest b) ∧
      ∀ text n, Wish.read text = .number n →
        minimum ≤ limits.choose text ∧ limits.choose text ≤ maximum) ∧
    (2 ^ 63 ≤ minimum.toNat → ∀ value,
      (0 ≤ value.toInt →
        ((limits.closest value).toNat : Int) = value.toInt ∧ limits.closest value < minimum) ∧
      (value.toInt < 0 → ((limits.closest value).toNat : Int)
        = max (minimum.toNat : Int) (min maximum.toNat (value.toInt + 2 ^ 64)))) := by
  obtain ⟨rfl, rfl, -⟩ := make?_eq_ok accepted
  refine ⟨⟨?_, closest_eq limits⟩, ?_, ?_⟩
  · intro exact
    by_contra large
    have five := exact 5
    rw [closest_of_large (Nat.not_lt.mp large), show (5 : Int64).toInt = 5 from rfl] at five
    omega
  · intro small
    refine ⟨closest_within small, fun a b => closest_mono small, ?_⟩
    intro text n read
    unfold choose
    rw [read]
    exact closest_within small n
  · intro large value
    have exact := closest_of_large large value
    constructor
    · intro pos
      rw [if_pos pos] at exact
      have most := value.toInt_lt
      refine ⟨exact, ?_⟩
      rw [UInt64.lt_iff_toNat_lt]
      omega
    · intro neg
      rwa [if_neg (Int.not_le.mpr neg)] at exact

theorem closest_of_storage :
    make? storage.name 1 1000 10 = .ok storage ∧
      ∀ text n, Wish.read text = .number n →
        1 ≤ storage.choose text ∧ storage.choose text ≤ 1000 :=
  ⟨rfl, ((closest_of_accepted make?_storage).2.1 (by decide)).2.2⟩

/-- The limits are the upper half of all words. Five is granted although it is below them, and for
the lesser number minus one more is granted. -/
theorem closest_below_minimum :
    ∃ limits, make? "x" 0x8000000000000000 0xFFFFFFFFFFFFFFFF 0x8000000000000000 = .ok limits ∧
      limits.closest 5 = 5 ∧ limits.closest 5 < limits.minimum ∧
      limits.choose (some "5") < limits.minimum ∧ limits.closest 5 < limits.closest (-1) := by
  refine ⟨⟨"x", 0x8000000000000000, 0xFFFFFFFFFFFFFFFF, 0x8000000000000000, by decide, by decide⟩,
    rfl, ?_⟩
  decide +kernel

end Limits
end DiskQueue
