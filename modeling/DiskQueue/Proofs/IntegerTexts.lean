/-
Module: DiskQueue.Proofs.IntegerTexts
Purpose: Which texts are integers, and what capacity is granted for them.
Trusted boundary: none
Main exports:
  Decimal.Numeral, Decimal.readInt64?_of_numeral, Blank.trim_append, Limits.IsInteger,
  Limits.Wish.read_of_isInteger, Limits.integers_granted
-/
import Mathlib.Data.List.TakeWhile
import DiskQueue.Proofs.Limits

namespace DiskQueue

/-!
An integer is written as an optional sign and digits, as many as one likes, and blanks around
them do not count. What is read from such a text is a word of 64 bits. An integer that no word
can hold is not moved to the end of the range: the text is taken for one that is no number, and
the default is granted for it.
-/

namespace Decimal

/-- The number that a run of ASCII digits stands for, however long it is. -/
def magnitude (ds : List Char) : Nat := number (ds.map fun c => c.toNat - '0'.toNat)

/-- An optional sign and digits, and the integer that they stand for. -/
inductive Numeral : List Char → Int → Prop
  | unsigned {ds : List Char} (nonempty : ds ≠ []) (digit : ∀ c ∈ ds, c.isDigit = true) :
      Numeral ds (magnitude ds)
  | plus {ds : List Char} (nonempty : ds ≠ []) (digit : ∀ c ∈ ds, c.isDigit = true) :
      Numeral ('+' :: ds) (magnitude ds)
  | minus {ds : List Char} (nonempty : ds ≠ []) (digit : ∀ c ∈ ds, c.isDigit = true) :
      Numeral ('-' :: ds) (-(magnitude ds : Int))

variable {cs ds : List Char} {limit : Nat} {z : Int}

/-- Digits are read up to the limit, and nothing else is. -/
theorem readNat?_eq_some_iff {n : Nat} :
    readNat? limit ds = some n ↔
      ds ≠ [] ∧ (∀ c ∈ ds, c.isDigit = true) ∧ n = min limit (magnitude ds) := by
  unfold readNat? magnitude
  split
  · rename_i digits
    rw [numberUpTo_eq, Option.some.injEq, eq_comm]
    exact ⟨fun same => ⟨digits.1, List.all_eq_true.mp digits.2, same⟩, fun h => h.2.2⟩
  · rename_i other
    constructor
    · nofun
    · rintro ⟨nonempty, digit, -⟩
      exact absurd ⟨nonempty, List.all_eq_true.mpr digit⟩ other

/-- What begins with no sign is read as a number without one. -/
theorem readInt?_of_unsigned (digit : ∀ c ∈ ds, c.isDigit = true) :
    readInt? limit ds = (readNat? limit ds).map fun n => (n : Int) := by
  have noSign : ∀ c rest, ds = c :: rest → c.isDigit = true := by
    rintro c rest rfl
    exact digit c List.mem_cons_self
  unfold readInt?
  split
  · rename_i rest
    exact absurd (noSign '-' rest rfl) (by decide)
  · rename_i rest
    exact absurd (noSign '+' rest rfl) (by decide)
  · rfl

/-- A numeral is read as its integer, or as the limit on its side of zero. -/
theorem Numeral.readInt? (h : Numeral cs z) (limit : Nat) :
    Decimal.readInt? limit cs = some (max (-(limit : Int)) (min limit z)) := by
  cases h with
  | unsigned nonempty digit =>
    have read := readNat?_eq_some_iff.mpr ⟨nonempty, digit, (rfl : min limit _ = _)⟩
    have cut : ((min limit (magnitude cs) : Nat) : Int)
        = max (-(limit : Int)) (min limit (magnitude cs)) := by omega
    rw [readInt?_of_unsigned digit, read]
    exact congrArg some cut
  | plus nonempty digit =>
    rename_i ds
    have read := readNat?_eq_some_iff.mpr ⟨nonempty, digit, (rfl : min limit _ = _)⟩
    have cut : ((min limit (magnitude ds) : Nat) : Int)
        = max (-(limit : Int)) (min limit (magnitude ds)) := by omega
    rw [Decimal.readInt?, read]
    exact congrArg some cut
  | minus nonempty digit =>
    rename_i ds
    have read := readNat?_eq_some_iff.mpr ⟨nonempty, digit, (rfl : min limit _ = _)⟩
    have cut : -((min limit (magnitude ds) : Nat) : Int)
        = max (-(limit : Int)) (min limit (-(magnitude ds : Int))) := by omega
    rw [Decimal.readInt?, read]
    exact congrArg some cut

/-- Only numerals are read as integers. -/
theorem exists_numeral_of_readInt? {n : Int} (read : readInt? limit cs = some n) :
    ∃ z, Numeral cs z := by
  have digits (rest : List Char) :
      readNat? limit rest = none ∨ rest ≠ [] ∧ ∀ c ∈ rest, c.isDigit = true := by
    cases some : readNat? limit rest with
    | none => exact .inl rfl
    | some m =>
      obtain ⟨nonempty, digit, -⟩ := readNat?_eq_some_iff.mp some
      exact .inr ⟨nonempty, digit⟩
  unfold readInt? at read
  split at read
  · rename_i rest
    rcases digits rest with none | ⟨nonempty, digit⟩
    · rw [none] at read
      cases read
    · exact ⟨_, .minus nonempty digit⟩
  · rename_i rest
    rcases digits rest with none | ⟨nonempty, digit⟩
    · rw [none] at read
      cases read
    · exact ⟨_, .plus nonempty digit⟩
  · rcases digits cs with none | ⟨nonempty, digit⟩
    · rw [none] at read
      cases read
    · exact ⟨_, .unsigned nonempty digit⟩

/-- A numeral is read as a word if there is a word for its integer. The limit that digits are
read up to lies beyond all words, so it is no word either. -/
theorem readInt64?_of_numeral (h : Numeral cs z) :
    readInt64? cs = if -2 ^ 63 ≤ z ∧ z < 2 ^ 63 then some (Int64.ofInt z) else none := by
  have least : Int64.minValue.toInt = -2 ^ 63 := rfl
  have most : Int64.maxValue.toInt = 2 ^ 63 - 1 := rfl
  have limit : ((UInt64.size : Nat) : Int) = 2 ^ 64 := rfl
  rw [readInt64?, h.readInt?, Option.bind_some, least, most, limit]
  by_cases range : -2 ^ 63 ≤ z ∧ z < 2 ^ 63
  · have same : max (-(2 ^ 64 : Int)) (min (2 ^ 64) z) = z := by omega
    rw [if_pos range, same, if_pos ⟨range.1, by omega⟩]
  · rw [if_neg range, if_neg (by omega)]

theorem exists_numeral_of_readInt64? {n : Int64} (read : readInt64? cs = some n) :
    ∃ z, Numeral cs z := by
  obtain ⟨m, read, -⟩ := Option.bind_eq_some_iff.mp read
  exact exists_numeral_of_readInt? read

end Decimal

open Decimal (Numeral)

/-! ### Blanks -/

namespace Blank

variable {cs before after : List Char}

theorem isBlank_of_isDigit {c : Char} (h : c.isDigit = true) : isBlank c = false := by
  simp only [Char.isDigit, Bool.and_eq_true, decide_eq_true_eq, ge_iff_le, UInt32.le_iff_toNat_le]
    at h
  have low : 0x30 ≤ c.toNat := h.1
  have high : c.toNat ≤ 0x39 := h.2
  simp only [isBlank, ranges, List.any_cons, List.any_nil, Bool.or_false, Bool.or_eq_false_iff,
    Bool.and_eq_false_iff, decide_eq_false_iff_not]
  omega

/-- What has no blanks is left when the blanks around it are taken off. -/
theorem trim_append (none : ∀ c ∈ cs, isBlank c = false) (front : ∀ c ∈ before, isBlank c = true)
    (back : ∀ c ∈ after, isBlank c = true) : trim (before ++ cs ++ after) = cs := by
  have ends : trim (before ++ cs ++ after) = trim cs := by
    rw [trim, List.append_assoc, List.dropWhile_append_of_pos front, List.dropWhile_append]
    split
    · rename_i empty
      rw [List.isEmpty_iff] at empty
      rw [trim, empty, List.dropWhile_eq_nil_iff.mpr back]
    · rw [trim, List.reverse_append,
        List.dropWhile_append_of_pos fun c mem => back c (List.mem_reverse.mp mem)]
  rw [ends, trim_eq_self none]

/-- Only blanks are taken off. -/
theorem exists_trim (cs : List Char) :
    ∃ before after, cs = before ++ trim cs ++ after ∧ (∀ c ∈ before, isBlank c = true) ∧
      ∀ c ∈ after, isBlank c = true := by
  refine ⟨cs.takeWhile isBlank, ((cs.dropWhile isBlank).reverse.takeWhile isBlank).reverse, ?_,
    fun c mem => List.mem_takeWhile_imp mem,
    fun c mem => List.mem_takeWhile_imp (List.mem_reverse.mp mem)⟩
  rw [trim, List.append_assoc, ← List.reverse_append, List.takeWhile_append_dropWhile,
    List.reverse_reverse, List.takeWhile_append_dropWhile]

end Blank

/-! ### Numerals between blanks -/

section Numerals

variable {cs : List Char} {z z' : Int}

theorem Decimal.Numeral.ne_nil (h : Numeral cs z) : cs ≠ [] := by
  cases h with
  | unsigned nonempty => exact nonempty
  | plus | minus => exact List.cons_ne_nil _ _

theorem Decimal.Numeral.isBlank_eq_false (h : Numeral cs z) :
    ∀ c ∈ cs, Blank.isBlank c = false := by
  cases h with
  | unsigned _ digit => exact fun c mem => Blank.isBlank_of_isDigit (digit c mem)
  | plus _ digit =>
    exact List.forall_mem_cons.mpr ⟨by decide, fun c mem => Blank.isBlank_of_isDigit (digit c mem)⟩
  | minus _ digit =>
    exact List.forall_mem_cons.mpr ⟨by decide, fun c mem => Blank.isBlank_of_isDigit (digit c mem)⟩

/-- What is read up to a limit beyond two integers tells them apart. -/
theorem Decimal.Numeral.unique (h : Numeral cs z) (h' : Numeral cs z') : z = z' := by
  have read := h.readInt? (z.natAbs + z'.natAbs)
  have read' := h'.readInt? (z.natAbs + z'.natAbs)
  rw [read, Option.some.injEq] at read'
  omega

end Numerals

namespace Limits

variable {limits : Limits} {text : String} {z : Int}

/-- A text that is a numeral between blanks. -/
def IsInteger (text : String) (z : Int) : Prop :=
  ∃ before cs after, text.toList = before ++ cs ++ after ∧
    (∀ c ∈ before, Blank.isBlank c = true) ∧ (∀ c ∈ after, Blank.isBlank c = true) ∧ Numeral cs z

theorem isInteger_iff : IsInteger text z ↔ Numeral (Blank.trim text.toList) z := by
  constructor
  · rintro ⟨before, cs, after, whole, front, back, numeral⟩
    rwa [whole, Blank.trim_append numeral.isBlank_eq_false front back]
  · intro numeral
    obtain ⟨before, after, whole, front, back⟩ := Blank.exists_trim text.toList
    exact ⟨before, _, after, whole, front, back, numeral⟩

theorem isInteger_of_digits (ds : List Char) (nonempty : ds ≠ [])
    (digit : ds.all Char.isDigit = true) : IsInteger (String.ofList ds) (Decimal.magnitude ds) :=
  ⟨[], ds, [], by simp, nofun, nofun, .unsigned nonempty (List.all_eq_true.mp digit)⟩

/-- A text has one number at most. -/
theorem IsInteger.unique {z' : Int} (h : IsInteger text z) (h' : IsInteger text z') : z = z' :=
  (isInteger_iff.mp h).unique (isInteger_iff.mp h')

/-- An integer asks for a word if there is one for it, and for nothing that can be read if not. -/
theorem Wish.read_of_isInteger (h : IsInteger text z) :
    Wish.read (some text)
      = if -2 ^ 63 ≤ z ∧ z < 2 ^ 63 then .number (Int64.ofInt z) else .unreadable := by
  have numeral := isInteger_iff.mp h
  have word := Decimal.readInt64?_of_numeral numeral
  simp only [Wish.read]
  split
  · rename_i empty
    exact absurd empty numeral.ne_nil
  · rw [word]
    by_cases range : -2 ^ 63 ≤ z ∧ z < 2 ^ 63
    · rw [if_pos range, if_pos range]
    · rw [if_neg range, if_neg range]

/-- Only integers ask for a word. -/
theorem exists_isInteger {n : Int64} (read : Wish.read (some text) = .number n) :
    ∃ z, IsInteger text z := by
  simp only [Wish.read] at read
  split at read
  · cases read
  · split at read
    · rename_i word
      obtain ⟨z, numeral⟩ := Decimal.exists_numeral_of_readInt64? word
      exact ⟨z, isInteger_iff.mpr numeral⟩
    · cases read

/-! ### What is granted -/

/-- An integer is moved to the nearest point between the limits if there is a word for it, and
the default is granted if not. -/
theorem toNat_choose_of_isInteger (limits : Limits) (small : limits.minimum.toNat < 2 ^ 63)
    (h : IsInteger text z) :
    ((limits.choose (some text)).toNat : Int)
      = if -2 ^ 63 ≤ z ∧ z < 2 ^ 63
        then max (limits.minimum.toNat : Int) (min limits.maximum.toNat z)
        else limits.default.toNat := by
  rw [toNat_choose limits small, Wish.read_of_isInteger h]
  by_cases range : -2 ^ 63 ≤ z ∧ z < 2 ^ 63
  · have same : (Int64.ofInt z).toInt = z := Int64.toInt_ofInt_of_le range.1 range.2
    simp only [if_pos range, same]
  · simp only [if_neg range]

theorem choose_of_not_isInteger (none : ∀ z, ¬IsInteger text z) :
    limits.choose (some text) = limits.default := by
  unfold choose
  cases read : Wish.read (some text) with
  | number n =>
    obtain ⟨z, integer⟩ := exists_isInteger read
    exact absurd integer (none z)
  | nothing | unreadable => rfl

/-- For an integer the capacity granted is the nearest one exactly if there is a word for it, and
among such integers a greater one is granted no less. For an integer that there is no word for the
default is granted and that it cannot be parsed is reported, as for a text that is no integer. -/
theorem integers_granted (text : String) :
    make? storage.name 1 1000 10 = .ok storage ∧
    (∀ z, IsInteger text z →
      (((storage.choose (some text)).toNat : Int) = max 1 (min 1000 z) ↔
        -2 ^ 63 ≤ z ∧ z < 2 ^ 63) ∧
      (∀ text' z', IsInteger text' z' → -2 ^ 63 ≤ z → z ≤ z' → z' < 2 ^ 63 →
        storage.choose (some text) ≤ storage.choose (some text')) ∧
      (z < -2 ^ 63 ∨ 2 ^ 63 ≤ z → storage.choose (some text) = 10 ∧
        storage.chooseReport? (some text) = some ⟨.warn, "unparseable value, using default"⟩)) ∧
    ((∀ z, ¬IsInteger text z) → storage.choose (some text) = 10) ∧
    storage.choose none = 10 := by
  have granted {text : String} {z : Int} (h : IsInteger text z) :
      ((storage.choose (some text)).toNat : Int)
        = if -2 ^ 63 ≤ z ∧ z < 2 ^ 63 then max 1 (min 1000 z) else 10 :=
    storage.toNat_choose_of_isInteger (by decide) h
  refine ⟨make?_storage, fun z h => ⟨?_, ?_, ?_⟩, choose_of_not_isInteger, rfl⟩
  · rw [granted h]
    split <;> omega
  · intro text' z' h' low le high
    have lesser := granted h
    have greater := granted h'
    rw [if_pos (by omega)] at lesser greater
    rw [UInt64.le_iff_toNat_le]
    omega
  · intro outside
    have unreadable : Wish.read (some text) = .unreadable := by
      rw [Wish.read_of_isInteger h, if_neg (by omega)]
    rw [choose, chooseReport?, unreadable]
    exact ⟨rfl, rfl⟩

theorem integers_granted_of_blanks :
    IsInteger " +0042\t" 42 ∧ storage.choose (some " +0042\t") = 42 := by
  have integer : IsInteger " +0042\t" 42 :=
    ⟨[' '], ['+', '0', '0', '4', '2'], ['\t'], rfl, List.all_eq_true.mp (by decide),
      List.all_eq_true.mp (by decide), .plus (by decide) (List.all_eq_true.mp (by decide))⟩
  refine ⟨integer, ?_⟩
  have granted := ((integers_granted " +0042\t").2.1 42 integer).1.mpr (by decide)
  rw [← UInt64.toNat_inj]
  exact Int.ofNat_inj.mp granted

/-- The default is granted for the least integer beyond all words, and the greatest capacity for
the integer before it. -/
theorem less_granted_for_more :
    IsInteger "9223372036854775808" (2 ^ 63) ∧ IsInteger "9223372036854775807" (2 ^ 63 - 1) ∧
      storage.choose (some "9223372036854775808") = 10 ∧
      storage.choose (some "9223372036854775807") = 1000 :=
  ⟨isInteger_of_digits "9223372036854775808".toList (by decide) (by decide),
    isInteger_of_digits "9223372036854775807".toList (by decide) (by decide), by decide +kernel⟩

end Limits
end DiskQueue
