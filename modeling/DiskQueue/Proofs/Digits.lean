/-
Module: DiskQueue.Proofs.Digits
Purpose: Decimal digits as a written form of natural numbers.
Trusted boundary: none
Main exports:
  Decimal.isDigit_of_mem_digits, Decimal.number_digits, Decimal.length_digits_le_iff,
  Decimal.eq_zero_of_head_digits, Decimal.digits_number
-/
import DiskQueue.Decimal
import Mathlib.Data.List.Induction
import Mathlib.Tactic.Ring

namespace DiskQueue.Decimal

/-!
The digits of a number are built by putting the last digit behind those of a tenth of
it, so facts about them follow by induction over the number with that step
(`Nat.base_induction`).
-/

/-- The byte for a digit. -/
theorem digits_of_lt {n : Nat} (h : n < 10) : digits n = [UInt8.ofNat (0x30 + n)] := by
  have byte : ∀ m < 10, (Nat.digitChar m).val.toUInt8 = UInt8.ofNat (0x30 + m) := by decide
  rw [digits, Nat.toDigits_of_lt_base h, List.map_singleton, byte n h]

/-- The last digit stands behind the others. -/
theorem digits_append {n d : Nat} (hn : 0 < n) (hd : d < 10) :
    digits (10 * n + d) = digits n ++ digits d := by
  rw [digits, ← Nat.toDigits_append_toDigits (by decide) hn hd, List.map_append]
  rfl

theorem isDigit_of_mem_digits {n : Nat} {b : UInt8} (h : b ∈ digits n) : isDigit b = true := by
  induction n using Nat.base_induction 10 (by decide) with
  | single m hm =>
    rw [digits_of_lt hm, List.mem_singleton] at h
    subst h
    have digit : ∀ m < 10, isDigit (UInt8.ofNat (0x30 + m)) = true := by decide
    exact digit m hm
  | digit m k hk hm ih =>
    rw [digits_append hm hk, List.mem_append] at h
    cases h with
    | inl h => exact ih h
    | inr h =>
      rw [digits_of_lt hk, List.mem_singleton] at h
      subst h
      have digit : ∀ m < 10, isDigit (UInt8.ofNat (0x30 + m)) = true := by decide
      exact digit k hk

theorem digits_ne_nil (n : Nat) : digits n ≠ [] := by
  simp [digits]

theorem length_digits_le_iff {n k : Nat} (h : 0 < k) : (digits n).length ≤ k ↔ n < 10 ^ k := by
  rw [digits, List.length_map]
  exact Nat.length_toDigits_le_iff (by decide) h

/-! ### The number that digits stand for -/

theorem number_foldl (ds : List Nat) (n : Nat) :
    ds.foldl (fun n d => 10 * n + d) n = 10 ^ ds.length * n + number ds := by
  induction ds generalizing n with
  | nil => simp [number]
  | cons d ds ih =>
    rw [number, List.foldl_cons, List.foldl_cons, ih, ih (10 * 0 + d), List.length_cons, pow_succ]
    ring

/-- Digits behind others shift them to the left. -/
theorem number_append (ds es : List Nat) :
    number (ds ++ es) = 10 ^ es.length * number ds + number es := by
  rw [number, List.foldl_append, number_foldl]
  rfl

/-- A number is read back from its digits. -/
theorem number_digits (n : Nat) : number ((digits n).map digitValue) = n := by
  have value : ∀ m < 10, digitValue (UInt8.ofNat (0x30 + m)) = m := by decide
  induction n using Nat.base_induction 10 (by decide) with
  | single m hm =>
    rw [digits_of_lt hm, List.map_singleton, value m hm]
    simp [number]
  | digit m k hk hm ih =>
    rw [digits_append hm hk, List.map_append, number_append, ih, digits_of_lt hk,
      List.map_singleton, value k hk]
    simp [number]

/-- Only zero is written with a zero in front. -/
theorem eq_zero_of_head_digits {n : Nat} (h : (digits n).head? = some 0x30) : n = 0 := by
  induction n using Nat.base_induction 10 (by decide) with
  | single m hm =>
    rw [digits_of_lt hm] at h
    have zero : ∀ m < 10, [UInt8.ofNat (0x30 + m)].head? = some 0x30 → m = 0 := by decide
    exact zero m hm h
  | digit m k hk hm ih =>
    rw [digits_append hm hk, List.head?_append,
      Option.or_of_isSome (by simp [digits_ne_nil])] at h
    exact absurd (ih h) (by omega)

/-- A digit is the byte for the number it stands for. -/
theorem digits_digitValue {b : UInt8} (h : isDigit b = true) :
    digitValue b < 10 ∧ digits (digitValue b) = [b] := by
  simp only [isDigit, Bool.and_eq_true, decide_eq_true_eq, UInt8.le_iff_toNat_le] at h
  have low : 0x30 ≤ b.toNat := h.1
  have high : b.toNat ≤ 0x39 := h.2
  have small : digitValue b < 10 := by
    rw [digitValue]
    omega
  refine ⟨small, ?_⟩
  rw [digits_of_lt small, digitValue, Nat.add_sub_cancel' low, UInt8.ofNat_toNat]

/-- Digits are those of the number they stand for, unless a zero stands before others. -/
theorem digits_number {ds : Bytes} (nonempty : ds ≠ []) (digit : ∀ b ∈ ds, isDigit b = true)
    (alone : ¬ (ds.head? = some 0x30 ∧ 1 < ds.length)) :
    digits (number (ds.map digitValue)) = ds := by
  induction ds using List.reverseRecOn with
  | nil => exact absurd rfl nonempty
  | append_singleton es d ih =>
    obtain ⟨small, last⟩ := digits_digitValue (digit d (by simp))
    have step : number ((es ++ [d]).map digitValue)
        = 10 * number (es.map digitValue) + digitValue d := by
      rw [List.map_append, number_append]
      simp [number]
    rw [step]
    cases es with
    | nil =>
      simp only [List.map_nil, List.nil_append]
      rw [show number [] = 0 from rfl, Nat.mul_zero, Nat.zero_add, last]
    | cons e es =>
      have noZero : e ≠ 0x30 := by
        rintro rfl
        exact alone ⟨rfl, by simp⟩
      have before : digits (number ((e :: es).map digitValue)) = e :: es :=
        ih (List.cons_ne_nil e es) (fun b hb => digit b (List.mem_append_left _ hb))
          (fun h => noZero (Option.some.inj h.1))
      have pos : 0 < number ((e :: es).map digitValue) := by
        rw [Nat.pos_iff_ne_zero]
        intro zero
        rw [zero, show digits 0 = [0x30] by decide, List.cons.injEq] at before
        exact noZero before.1.symm
      rw [digits_append pos small, before, last]

end DiskQueue.Decimal
