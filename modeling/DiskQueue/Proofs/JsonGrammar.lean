/-
Module: DiskQueue.Proofs.JsonGrammar
Purpose: The strings and natural numbers that the readers accept, and the values they pass
  over, as a grammar.
Trusted boundary: none
Main exports:
  Json.Quotes, Json.IsValue, Json.readString_iff, Json.readNatBelow_iff
-/
import DiskQueue.Proofs.JsonPieces

namespace DiskQueue.Json

/-! ### Strings

The text between the quotes of a string and the bytes it stands for. -/

/-- The bytes of the character beyond the basic plane that two surrogates stand for. -/
def pairBytes (high low : Nat) : Bytes :=
  Utf8.encodeChar (Char.ofNat (0x10000 + (high - 0xD800) * 0x400 + (low - 0xDC00)))

/-- What may stand after a backslash: a letter, four hexadecimal digits for a character of the
basic plane, or two such groups for a character beyond it. -/
inductive Escapes : Bytes → Bytes → Prop where
  | letter {e c : UInt8} (means : plainEscape? e = some c) : Escapes [e] [c]
  | unicode {ds : Bytes} {n : Nat} (hex : scanHex4 ds = .ok (n, []))
      (scalar : ¬ (0xD800 ≤ n ∧ n ≤ 0xDFFF)) :
      Escapes (0x75 :: ds) (Utf8.encodeChar (Char.ofNat n))
  | pair {ds es : Bytes} {high low : Nat} (hexHigh : scanHex4 ds = .ok (high, []))
      (hexLow : scanHex4 es = .ok (low, [])) (rangeHigh : 0xD800 ≤ high ∧ high ≤ 0xDBFF)
      (rangeLow : 0xDC00 ≤ low ∧ low ≤ 0xDFFF) :
      Escapes (0x75 :: (ds ++ 0x5C :: 0x75 :: es)) (pairBytes high low)

/-- A text without quotes stands for some bytes: what is no backslash and no control character for
itself, and every escape for what it means. -/
inductive Spells : Bytes → Bytes → Prop where
  | nil : Spells [] []
  | plain {b : UInt8} {text bs : Bytes} (noQuote : b ≠ 0x22) (noEscape : b ≠ 0x5C)
      (printable : ¬ b < 0x20) (more : Spells text bs) : Spells (b :: text) (b :: bs)
  | escape {esc ebs text bs : Bytes} (means : Escapes esc ebs) (more : Spells text bs) :
      Spells (0x5C :: (esc ++ text)) (ebs ++ bs)

/-- A string between its quotes. -/
def Quotes (s : String) (v : Bytes) : Prop :=
  ∃ text, v = 0x22 :: (text ++ [0x22]) ∧ Spells text (Utf8.encode s)

theorem scanHex4_iff {s r : Bytes} {n : Nat} :
    scanHex4 s = .ok (n, r) ↔ ∃ ds, s = ds ++ r ∧ scanHex4 ds = .ok (n, []) := by
  constructor
  · intro h
    unfold scanHex4 at h
    split at h
    · rename_i a b c d rest
      split at h
      · rename_i ha hb hc hd
        cases h
        refine ⟨[a, b, c, d], rfl, ?_⟩
        simp only [scanHex4, ha, hb, hc, hd]
      · cases h
    · cases h
  · rintro ⟨ds, rfl, h⟩
    unfold scanHex4 at h
    split at h
    · rename_i a b c d rest
      split at h
      · rename_i ha hb hc hd
        cases h
        simp only [List.cons_append, List.nil_append, scanHex4, ha, hb, hc, hd]
      · cases h
    · cases h

theorem scanLowSurrogate_iff {high : Nat} {s bs r : Bytes} :
    scanLowSurrogate high s = .ok (bs, r) ↔
      ∃ es low, s = 0x5C :: 0x75 :: (es ++ r) ∧ scanHex4 es = .ok (low, []) ∧
        (0xDC00 ≤ low ∧ low ≤ 0xDFFF) ∧ bs = pairBytes high low := by
  constructor
  · intro h
    unfold scanLowSurrogate at h
    split at h
    · cases h
    · cases h
    rename_i b u rest
    split at h
    · rename_i mark
      obtain ⟨rfl, rfl⟩ := mark
      split at h
      · cases h
      rename_i low after hex
      obtain ⟨es, rfl, hes⟩ := scanHex4_iff.mp hex
      split at h
      · cases h
      · rename_i range
        simp only [Except.ok.injEq, Prod.mk.injEq] at h
        obtain ⟨rfl, rfl⟩ := h
        exact ⟨es, low, rfl, hes, by omega, by rw [pairBytes]⟩
    · cases h
  · rintro ⟨es, low, rfl, hex, range, meant⟩
    have scanned : scanHex4 (es ++ r) = .ok (low, r) := scanHex4_iff.mpr ⟨es, rfl, hex⟩
    have inside : ¬ (low < 0xDC00 ∨ 0xDFFF < low) := by omega
    simp only [scanLowSurrogate, and_self, if_true, scanned, if_neg inside, meant, pairBytes]

theorem scanEscape_iff {s bs r : Bytes} :
    scanEscape s = .ok (bs, r) ↔ ∃ esc, s = esc ++ r ∧ Escapes esc bs := by
  have u : plainEscape? 0x75 = none := by decide
  constructor
  · intro h
    unfold scanEscape at h
    split at h
    · cases h
    rename_i b rest
    split at h
    · rename_i c means
      cases h
      exact ⟨[b], rfl, .letter means⟩
    split at h
    · rename_i mark
      subst mark
      unfold scanUnicodeEscape at h
      split at h
      · cases h
      rename_i n after hex
      obtain ⟨ds, rfl, hds⟩ := scanHex4_iff.mp hex
      split at h
      · cases h
      rename_i notLow
      split at h
      · rename_i high
        obtain ⟨es, low, rfl, hes, range, meant⟩ := scanLowSurrogate_iff.mp h
        rw [meant]
        exact ⟨0x75 :: (ds ++ 0x5C :: 0x75 :: es), by simp, .pair hds hes high range⟩
      · rename_i notHigh
        cases h
        exact ⟨0x75 :: ds, rfl, .unicode hds (by omega)⟩
    · cases h
  · rintro ⟨esc, rfl, means⟩
    cases means with
    | letter means => simp only [List.cons_append, List.nil_append, scanEscape, means]
    | @unicode ds n hex scalar =>
      have scanned : scanHex4 (ds ++ r) = .ok (n, r) := scanHex4_iff.mpr ⟨ds, rfl, hex⟩
      simp only [List.cons_append, scanEscape, u, if_true, scanUnicodeEscape, scanned]
      rw [if_neg (by omega), if_neg (by omega)]
    | @pair ds es high low hexHigh hexLow rangeHigh rangeLow =>
      have scanned : scanHex4 (ds ++ 0x5C :: 0x75 :: (es ++ r))
          = .ok (high, 0x5C :: 0x75 :: (es ++ r)) := scanHex4_iff.mpr ⟨ds, rfl, hexHigh⟩
      have second : scanLowSurrogate high (0x5C :: 0x75 :: (es ++ r))
          = .ok (pairBytes high low, r) :=
        scanLowSurrogate_iff.mpr ⟨es, low, rfl, hexLow, rangeLow, rfl⟩
      simp only [List.cons_append, List.append_assoc, scanEscape, u, if_true, scanUnicodeEscape,
        scanned]
      rw [if_neg (by omega), if_pos rangeHigh]
      exact second

theorem scanStringBytes_iff {s bs r : Bytes} :
    scanStringBytes s = .ok (bs, r) ↔ ∃ text, s = text ++ 0x22 :: r ∧ Spells text bs := by
  constructor
  · intro h
    induction length : s.length using Nat.strongRecOn generalizing s bs with
    | ind n ih =>
      subst length
      rw [scanStringBytes.eq_def] at h
      split at h
      · cases h
      rename_i b rest
      split at h
      · rename_i quote
        cases h
        exact ⟨[], by rw [quote]; rfl, .nil⟩
      rename_i noQuote
      split at h
      · rename_i backslash
        subst backslash
        split at h
        · cases h
        rename_i ebs after hEscape
        obtain ⟨esc, rfl, means⟩ := scanEscape_iff.mp hEscape
        split at h
        · cases h
        rename_i more _ hMore
        cases h
        have shorter : after.length < (0x5C :: (esc ++ after)).length := by
          simp only [List.length_cons, List.length_append]
          omega
        obtain ⟨text, rfl, spells⟩ := ih _ shorter hMore rfl
        exact ⟨0x5C :: (esc ++ text), by simp, .escape means spells⟩
      rename_i noEscape
      split at h
      · cases h
      rename_i printable
      split at h
      · cases h
      rename_i more _ hMore
      cases h
      obtain ⟨text, rfl, spells⟩ := ih _ (by simp) hMore rfl
      exact ⟨b :: text, rfl, .plain noQuote noEscape printable spells⟩
  · rintro ⟨text, rfl, spells⟩
    induction spells with
    | nil => rw [List.nil_append, scanStringBytes, if_pos rfl]
    | plain noQuote noEscape printable more ih =>
      rw [List.cons_append, scanStringBytes_plain noQuote noEscape printable, ih]
      rfl
    | @escape esc ebs text bs means more ih =>
      have scanned : scanEscape (esc ++ (text ++ 0x22 :: r)) = .ok (ebs, text ++ 0x22 :: r) :=
        scanEscape_iff.mpr ⟨esc, rfl, means⟩
      rw [List.cons_append, List.append_assoc, scanStringBytes_escape scanned, ih]
      rfl

/-- A string is what its bytes say, and they have to be text. -/
theorem scanString_iff {s r : Bytes} {x : String} :
    scanString s = .ok (x, r) ↔ ∃ text, s = text ++ 0x22 :: r ∧ Spells text (Utf8.encode x) := by
  rw [← scanStringBytes_iff]
  constructor
  · intro h
    unfold scanString at h
    split at h
    · cases h
    rename_i bs _ scanned
    split at h
    · rename_i decoded
      cases h
      rw [Utf8.encode_of_decode? decoded]
      exact scanned
    · cases h
  · intro h
    simp only [scanString, h, Utf8.decode?_encode]

/-- A text quotes one string only. -/
theorem Quotes.unique {x y : String} {v : Bytes} (h : Quotes x v) (h' : Quotes y v) : x = y := by
  obtain ⟨text, rfl, spells⟩ := h
  obtain ⟨text', same, spells'⟩ := h'
  obtain rfl : text = text' := by simpa using same
  have scanned := scanString_iff.mpr ⟨text, (rfl : text ++ [0x22] = _), spells⟩
  have scanned' := scanString_iff.mpr ⟨text, (rfl : text ++ [0x22] = _), spells'⟩
  cases scanned.symm.trans scanned'
  rfl

/-- A string is read from its quotes, with blanks before it. -/
theorem readString_iff {expected : String} {s r : Bytes} {x : String} :
    readString expected s = .ok (x, r) ↔ ∃ a v, s = a ++ (v ++ r) ∧ Blanks a ∧ Quotes x v := by
  constructor
  · intro h
    unfold readString at h
    split at h
    · cases h
    rename_i b rest text
    split at h
    · rename_i quote
      subst quote
      obtain ⟨inner, rfl, spells⟩ := scanString_iff.mp h
      obtain ⟨a, blanks, whole⟩ := exists_blanks s
      refine ⟨a, 0x22 :: (inner ++ [0x22]), ?_, blanks, inner, rfl, spells⟩
      rw [whole, text]
      simp
    · cases h
  · rintro ⟨a, v, rfl, blanks, inner, rfl, spells⟩
    have scanned : scanString (inner ++ 0x22 :: r) = .ok (x, r) :=
      scanString_iff.mpr ⟨inner, rfl, spells⟩
    rw [readString, skipBlank_append blanks, List.cons_append, skipBlank_cons (by decide)]
    simp only [if_true, List.append_assoc, List.singleton_append]
    exact scanned

/-! A string that can be read can also be passed over. -/

theorem hexValue?_of_scanHex4 {s r : Bytes} {n : Nat} (h : scanHex4 s = .ok (n, r)) :
    ∃ a b c d, s = a :: b :: c :: d :: r ∧ (hexValue? a).isSome = true ∧
      (hexValue? b).isSome = true ∧ (hexValue? c).isSome = true ∧ (hexValue? d).isSome = true := by
  unfold scanHex4 at h
  split at h
  · rename_i a b c d rest
    split at h
    · rename_i ha hb hc hd
      cases h
      exact ⟨a, b, c, d, rfl, by simp [ha], by simp [hb], by simp [hc], by simp [hd]⟩
    · cases h
  · cases h

/-- Four hexadecimal digits are passed over together with the backslash and the letter before
them. -/
theorem skipString_hex4 {ds : Bytes} {n : Nat} (h : scanHex4 ds = .ok (n, [])) (rest : Bytes) :
    skipString (0x5C :: 0x75 :: (ds ++ rest)) = skipString rest := by
  obtain ⟨a, b, c, d, rfl, ha, hb, hc, hd⟩ := hexValue?_of_scanHex4 h
  have u : ¬ (plainEscape? 0x75).isSome = true := by decide
  simp only [List.cons_append, List.nil_append]
  rw [skipString.eq_def]
  simp only [if_neg (show ¬ (0x5C : UInt8) = 0x22 by decide), if_true, if_neg u, ha, hb, hc, hd,
    and_self]

theorem skipString_escapes {esc bs : Bytes} (h : Escapes esc bs) (rest : Bytes) :
    skipString (0x5C :: (esc ++ rest)) = skipString rest := by
  cases h with
  | letter means =>
    rw [List.singleton_append, skipString.eq_def]
    simp only [if_neg (show ¬ (0x5C : UInt8) = 0x22 by decide), if_true, means, Option.isSome_some]
  | unicode hex scalar => exact skipString_hex4 hex rest
  | pair hexHigh hexLow rangeHigh rangeLow =>
    rw [List.cons_append, List.append_assoc, skipString_hex4 hexHigh]
    exact skipString_hex4 hexLow rest

theorem skipString_of_spells {text bs : Bytes} (h : Spells text bs) (rest : Bytes) :
    skipString (text ++ 0x22 :: rest) = .ok rest := by
  induction h with
  | nil =>
    rw [List.nil_append, skipString.eq_def]
    rfl
  | plain noQuote noEscape printable more ih =>
    rw [List.cons_append, skipString.eq_def]
    simp only [if_neg noQuote, if_neg noEscape, if_neg printable, ih]
  | escape means more ih => rw [List.cons_append, List.append_assoc, skipString_escapes means, ih]

/-! ### Values -/

/-- The text of a value, without blanks around it: what is passed over whole. -/
def IsValue (v : Bytes) : Prop := skipBlank v = v ∧ skipValue v = .ok []

theorem Quotes.isValue {x : String} {v : Bytes} (h : Quotes x v) : IsValue v := by
  obtain ⟨text, rfl, spells⟩ := h
  refine ⟨skipBlank_cons (by decide) _, skipValue_of_skipHead ?_⟩
  rw [skipHead, skipBlank_cons (by decide)]
  simp only [skipString_of_spells spells]
  rfl

theorem isValue_ofInt (n : Int) : IsValue (Decimal.ofInt n) := by
  obtain ⟨d, ds, text, -, blank⟩ := ofInt_eq_cons n
  have stop : EndsNumeral [] := by simp [EndsNumeral]
  have skipped := skipValue_ofInt n stop
  rw [List.append_nil] at skipped
  exact ⟨by rw [text, skipBlank_cons blank], skipped⟩

theorem isValue_digits (n : Nat) : IsValue (Decimal.digits n) := by
  rw [← ofInt_natCast]
  exact isValue_ofInt n

/-- Blanks before a value are passed over with it. -/
theorem skipValue_blanks {a : Bytes} (h : Blanks a) (s : Bytes) :
    skipValue (a ++ s) = skipValue s := by
  have step : (Pending.mk .value [] (a ++ s)).step = (Pending.mk .value [] s).step := by
    simp only [Pending.step, skipHead, skipBlank_append h]
  rw [skipValue, skipValue, Pending.finish_eq (by simp), Pending.finish_eq (by simp), step]

/-- A value that is passed over at the front of a text is a piece of it, behind blanks. -/
theorem exists_value {s rest : Bytes} (h : skipValue s = .ok rest) :
    ∃ a v, s = a ++ (v ++ rest) ∧ Blanks a ∧ IsValue v := by
  obtain ⟨piece, rfl, taken⟩ := takes_skipValue h
  have whole : skipValue piece = .ok [] := by
    have alone := taken [] (.inr (by simp [EndsNumeral]))
    rwa [List.append_nil] at alone
  obtain ⟨a, blanks, split⟩ := exists_blanks piece
  refine ⟨a, skipBlank piece, by rw [← List.append_assoc, ← split], blanks, ?_, ?_⟩
  · exact List.dropWhile_idempotent _ _
  · rw [split, skipValue_blanks blanks] at whole
    exact whole

/-- A value is passed over behind blanks and before what cannot go on with a numeral. -/
theorem IsValue.skipValue {a v rest : Bytes} (h : IsValue v) (blanks : Blanks a)
    (stop : EndsNumeral rest) : skipValue (a ++ (v ++ rest)) = .ok rest := by
  rw [skipValue_blanks blanks, skipValue_append h.2 stop]

/-! ### Natural numbers -/

theorem scanFraction_eq_nil {s r : Bytes} (h : scanFraction s = .ok ([], r)) :
    r = s ∧ ∀ b ∈ s.head?, b ≠ 0x2E := by
  unfold scanFraction at h
  split at h
  · cases h
    exact ⟨rfl, by simp⟩
  · split at h
    · exact absurd rfl (scanDigits_iff.mp h).2.1
    · rename_i noPoint
      cases h
      exact ⟨rfl, by simpa using noPoint⟩

theorem scanExponent_eq_none {s r : Bytes} (h : scanExponent s = .ok (none, r)) :
    r = s ∧ ∀ b ∈ s.head?, b ≠ 0x65 ∧ b ≠ 0x45 := by
  unfold scanExponent at h
  split at h
  · cases h
    exact ⟨rfl, by simp⟩
  · split at h
    · dsimp only at h
      split at h <;> cases h
    · rename_i noMark
      cases h
      exact ⟨rfl, by simpa using noMark⟩

/-- The digits of a numeral without point and exponent are its text, which cannot go on. -/
theorem scanMagnitude_plain {negative sign : Bool} {s whole r : Bytes}
    (h : scanMagnitude negative s = .ok (⟨sign, whole, [], none⟩, r)) :
    sign = negative ∧ s = whole ++ r ∧ EndsNumeral r ∧ whole ≠ [] ∧
      (∀ b ∈ whole, Decimal.isDigit b = true) ∧
      ¬ (whole.head? = some 0x30 ∧ 1 < whole.length) := by
  unfold scanMagnitude at h
  split at h
  · cases h
  rename_i hWhole
  split at h
  · cases h
  rename_i hFraction
  split at h
  · cases h
  rename_i hExponent
  cases h
  unfold scanWhole at hWhole
  split at hWhole
  · cases hWhole
  rename_i hDigits
  split at hWhole
  · cases hWhole
  rename_i alone
  cases hWhole
  obtain ⟨rfl, nonempty, digits, stop⟩ := scanDigits_iff.mp hDigits
  obtain ⟨rfl, noPoint⟩ := scanFraction_eq_nil hFraction
  obtain ⟨rfl, noMark⟩ := scanExponent_eq_none hExponent
  exact ⟨rfl, rfl, fun b hb => ⟨by simpa using stop b hb, noPoint b hb, noMark b hb⟩, nonempty,
    digits, alone⟩

theorem absorb_eq_number {ds : Bytes} {n k : Nat} (h : absorb n ds = (k, [])) :
    k = (ds.map Decimal.digitValue).foldl (fun n d => 10 * n + d) n := by
  induction ds generalizing n with
  | nil =>
    cases h
    rfl
  | cons d ds ih =>
    simp only [absorb] at h
    split at h
    · exact ih h
    · cases h

/-- Only digits alone, with a sign or without, have an integer as their value. -/
theorem value_integer {n : Numeral} {m : Int} (h : n.value = .ok (.integer m)) :
    n = ⟨decide (m < 0), n.whole, [], none⟩ ∧
      m.natAbs = Decimal.number (n.whole.map Decimal.digitValue) := by
  obtain ⟨negative, whole, fraction, exponent⟩ := n
  have approximate : ∀ n : Numeral, n.approximate ≠ .ok (.integer m) := by
    intro n h
    unfold Numeral.approximate at h
    dsimp only at h
    cases hs : scaled (absorb (absorb 0 n.whole).1 n.fraction).1
      ((absorb 0 n.whole).2.length - (n.fraction.length
        - (absorb (absorb 0 n.whole).1 n.fraction).2.length : Int) + n.writtenExponent) with
    | error f =>
      rw [hs] at h
      cases h
    | ok x =>
      rw [hs] at h
      cases h
  unfold Numeral.value at h
  split at h
  · rename_i k hk hFraction hExponent
    have number : k = Decimal.number (whole.map Decimal.digitValue) := absorb_eq_number hk
    dsimp only at hFraction hExponent h ⊢
    split at h
    · rename_i unsigned
      cases h
      rw [unsigned, hFraction, hExponent, decide_eq_false (by omega)]
      exact ⟨rfl, by omega⟩
    rename_i signed
    split at h
    · rename_i range
      cases h
      rw [Bool.eq_true_of_not_eq_false signed, hFraction, hExponent, decide_eq_true (by omega)]
      exact ⟨rfl, by omega⟩
    · cases h
  · exact absurd h (approximate _)

/-- An integer is read from its digits, with a sign before them if it is negative, and nothing
behind them that could be a part of it. -/
theorem scanNumber_integer {s r : Bytes} {m : Int} (h : scanNumber s = .ok (.integer m, r)) :
    s = Decimal.ofInt m ++ r ∧ EndsNumeral r := by
  unfold scanNumber at h
  split at h
  · cases h
  rename_i n _ hNumeral
  split at h
  · cases h
  rename_i hValue
  cases h
  obtain ⟨plain, number⟩ := value_integer hValue
  rw [plain] at hNumeral
  unfold scanNumeral at hNumeral
  split at hNumeral
  · cases hNumeral
  rename_i b rest
  split at hNumeral
  · rename_i minus
    obtain ⟨sign, rfl, stop, nonempty, digits, alone⟩ := scanMagnitude_plain hNumeral
    have negative : m < 0 := of_decide_eq_true sign
    rw [Decimal.ofInt, if_pos negative, number, Decimal.digits_number nonempty digits alone, minus]
    exact ⟨rfl, stop⟩
  · obtain ⟨sign, text, stop, nonempty, digits, alone⟩ := scanMagnitude_plain hNumeral
    have positive : ¬ m < 0 := of_decide_eq_false sign
    rw [Decimal.ofInt, if_neg positive, number, Decimal.digits_number nonempty digits alone]
    exact ⟨text, stop⟩

/-- A natural number is read from its digits, with blanks before it and nothing behind it that
could be a part of it. -/
theorem readNatBelow_iff {bound : Nat} (h64 : bound ≤ 2 ^ 64) {expected : String} {s r : Bytes}
    {n : Nat} :
    readNatBelow bound expected s = .ok (n, r) ↔
      n < bound ∧ EndsNumeral r ∧ ∃ a, s = a ++ (Decimal.digits n ++ r) ∧ Blanks a := by
  constructor
  · intro h
    unfold readNatBelow at h
    split at h
    · cases h
    rename_i b rest text
    split at h
    · split at h
      · cases h
      · cases h
      rename_i m after scanned
      split at h
      · rename_i range
        cases h
        obtain ⟨digitsText, stop⟩ := scanNumber_integer scanned
        obtain ⟨a, blanks, whole⟩ := exists_blanks s
        have natural : Decimal.ofInt m = Decimal.digits m.toNat := by
          rw [← ofInt_natCast, Int.toNat_of_nonneg range.1]
        refine ⟨by omega, stop, a, ?_, blanks⟩
        rw [← natural, ← digitsText, ← text]
        exact whole
      · cases h
    · cases h
  · rintro ⟨range, stop, a, rfl, blanks⟩
    have read := readNatBelow_digits range (lt_of_lt_of_le range h64) expected stop
    rw [readNatBelow, skipBlank_append blanks]
    exact read

end DiskQueue.Json
