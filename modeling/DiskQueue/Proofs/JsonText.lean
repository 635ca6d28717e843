/-
Module: DiskQueue.Proofs.JsonText
Purpose: Values written as JSON are read back, and are passed over whole.
Trusted boundary: none
Main exports:
  Json.scanString_quoted, Json.readNatBelow_digits, Json.skipValue_quoted,
  Json.skipValue_ofInt, Json.Shape.Fills, Json.read_object
-/
import DiskQueue.Json.Fields
import DiskQueue.Json.Printer
import DiskQueue.Proofs.Digits
import Mathlib.Data.List.DropRight

namespace DiskQueue.Json

/-! ### Strings

A byte of a string is written as itself or as an escape, and what is read for it is
that byte alone. So reading follows the bytes of the string one by one. -/

theorem hexValue?_hexDigit {n : Nat} (h : n < 16) : hexValue? (hexDigit n) = some n := by
  have all : ∀ m < 16, hexValue? (hexDigit m) = some m := by decide
  exact all n h

/-- A control character is read back from its four hexadecimal digits. -/
theorem scanUnicodeEscape_control {b : UInt8} (h : b < 0x20) (rest : Bytes) :
    scanUnicodeEscape (0x30 :: 0x30 :: hexDigit (b.toNat / 16) :: hexDigit (b.toNat % 16) :: rest)
      = .ok ([b], rest) := by
  have hb : b.toNat < 32 := h
  have zero : hexValue? 0x30 = some 0 := by decide
  have char : ∀ n < 32, Utf8.encodeChar (Char.ofNat n) = [UInt8.ofNat n] := by decide
  have value : ((0 * 16 + 0) * 16 + b.toNat / 16) * 16 + b.toNat % 16 = b.toNat := by omega
  have hex : scanHex4 (0x30 :: 0x30 :: hexDigit (b.toNat / 16) :: hexDigit (b.toNat % 16) :: rest)
      = .ok (b.toNat, rest) := by
    simp only [scanHex4, zero, hexValue?_hexDigit (show b.toNat / 16 < 16 by omega),
      hexValue?_hexDigit (show b.toNat % 16 < 16 by omega), value]
  rw [scanUnicodeEscape, hex]
  simp only [char _ hb, UInt8.ofNat_toNat]
  rw [if_neg (by omega), if_neg (by omega)]

/-- What is read for an escape comes before what is read behind it. -/
theorem scanStringBytes_escape {s bs rest : Bytes} (h : scanEscape s = .ok (bs, rest)) :
    scanStringBytes (0x5C :: s) = (scanStringBytes rest).map fun r => (bs ++ r.1, r.2) := by
  rw [scanStringBytes, if_neg (by decide), if_pos rfl]
  split
  · rename_i heq
    rw [h] at heq
    cases heq
  · rename_i heq
    rw [h] at heq
    cases heq
    cases scanStringBytes rest <;> rfl

/-- A byte that needs no escape is read as itself. -/
theorem scanStringBytes_plain {b : UInt8} (hq : b ≠ 0x22) (hb : b ≠ 0x5C) (hc : ¬ b < 0x20)
    (rest : Bytes) :
    scanStringBytes (b :: rest) = (scanStringBytes rest).map fun r => (b :: r.1, r.2) := by
  rw [scanStringBytes, if_neg hq, if_neg hb, if_neg hc]
  cases scanStringBytes rest <;> rfl

/-- The written form of a byte is read as that byte. -/
theorem scanStringBytes_escapeByte (b : UInt8) (rest : Bytes) :
    scanStringBytes (escapeByte b ++ rest) = (scanStringBytes rest).map fun r => (b :: r.1, r.2) := by
  have short : ∀ {e c : UInt8}, plainEscape? e = some c →
      scanStringBytes ([0x5C, e] ++ rest) = (scanStringBytes rest).map fun r => (c :: r.1, r.2) := by
    intro e c he
    have escape : scanEscape (e :: rest) = .ok ([c], rest) := by simp only [scanEscape, he]
    exact scanStringBytes_escape escape
  unfold escapeByte
  split_ifs with h1 h2 h3 h4 h5 h6 h7 h8
  · subst h1
    exact short (by decide)
  · subst h2
    exact short (by decide)
  · subst h3
    exact short (by decide)
  · subst h4
    exact short (by decide)
  · subst h5
    exact short (by decide)
  · subst h6
    exact short (by decide)
  · subst h7
    exact short (by decide)
  · have escape : scanEscape (0x75 :: 0x30 :: 0x30 :: hexDigit (b.toNat / 16)
        :: hexDigit (b.toNat % 16) :: rest) = .ok ([b], rest) := scanUnicodeEscape_control h8 rest
    exact scanStringBytes_escape escape
  · exact scanStringBytes_plain h1 h2 h8 rest

/-- A string is read back from its written form, whatever follows it. -/
theorem scanStringBytes_escaped (bs rest : Bytes) :
    scanStringBytes (bs.flatMap escapeByte ++ 0x22 :: rest) = .ok (bs, rest) := by
  induction bs with
  | nil =>
    rw [List.flatMap_nil, List.nil_append, scanStringBytes, if_pos rfl]
  | cons b bs ih =>
    rw [List.flatMap_cons, List.append_assoc, scanStringBytes_escapeByte, ih]
    rfl

theorem quoted_append (s : String) (rest : Bytes) :
    quoted s ++ rest = 0x22 :: ((Utf8.encode s).flatMap escapeByte ++ 0x22 :: rest) := by
  simp [quoted]

theorem scanString_quoted (s : String) (rest : Bytes) :
    scanString ((Utf8.encode s).flatMap escapeByte ++ 0x22 :: rest) = .ok (s, rest) := by
  rw [scanString, scanStringBytes_escaped]
  simp only [Utf8.decode?_encode]

/-- The written form of a byte is passed over. -/
theorem skipString_escapeByte (b : UInt8) (rest : Bytes) :
    skipString (escapeByte b ++ rest) = skipString rest := by
  have short : ∀ {e : UInt8}, (plainEscape? e).isSome = true →
      skipString ([0x5C, e] ++ rest) = skipString rest := by
    intro e he
    rw [List.cons_append, List.singleton_append, skipString.eq_def]
    simp only [if_neg (show ¬ (0x5C : UInt8) = 0x22 by decide), if_true, he]
  unfold escapeByte
  split_ifs with h1 h2 h3 h4 h5 h6 h7 h8
  iterate 7 exact short (by decide)
  · have hb : b.toNat < 32 := h8
    have zero : (hexValue? 0x30).isSome = true := by decide
    have high : (hexValue? (hexDigit (b.toNat / 16))).isSome = true := by
      rw [hexValue?_hexDigit (by omega)]; rfl
    have low : (hexValue? (hexDigit (b.toNat % 16))).isSome = true := by
      rw [hexValue?_hexDigit (by omega)]; rfl
    have u : ¬ (plainEscape? 0x75).isSome = true := by decide
    rw [List.cons_append, skipString.eq_def]
    simp only [if_neg (show ¬ (0x5C : UInt8) = 0x22 by decide), if_true, if_neg u, zero, high, low,
      List.cons_append, List.nil_append, and_self]
  · rw [List.singleton_append, skipString.eq_def]
    simp only [if_neg h1, if_neg h2, if_neg h8]

theorem skipString_escaped (bs rest : Bytes) :
    skipString (bs.flatMap escapeByte ++ 0x22 :: rest) = .ok rest := by
  induction bs with
  | nil =>
    rw [List.flatMap_nil, List.nil_append, skipString.eq_def]
    rfl
  | cons b bs ih => rw [List.flatMap_cons, List.append_assoc, skipString_escapeByte, ih]

/-- No byte of a written string is a newline. -/
theorem newline_notMem_quoted (s : String) : 0x0A ∉ quoted s := by
  have hex : ∀ n < 16, hexDigit n ≠ 0x0A := by decide
  have byte : ∀ b : UInt8, 0x0A ∉ escapeByte b := by
    intro b
    have high := hex (b.toNat / 16) (by have := b.toNat_lt; omega)
    have low := hex (b.toNat % 16) (by omega)
    unfold escapeByte
    split_ifs with h1 h2 h3 h4 h5 h6 h7 h8
    iterate 7 decide
    · simp [high.symm, low.symm]
    · simpa using Ne.symm h5
  simp only [quoted, List.mem_append, List.mem_cons, List.mem_flatMap, List.not_mem_nil, or_false]
  rintro ((h | ⟨b, -, hb⟩) | h)
  · exact absurd h (by decide)
  · exact byte b hb
  · exact absurd h (by decide)

/-! ### Natural numbers

A numeral is as long as it can be, so it matters that what follows it does not go on
with it. -/

/-- Whether a text does not go on with a numeral that stands before it. -/
def EndsNumeral (rest : Bytes) : Prop :=
  ∀ b ∈ rest.head?, Decimal.isDigit b = false ∧ b ≠ 0x2E ∧ b ≠ 0x65 ∧ b ≠ 0x45

theorem endsNumeral_comma (rest : Bytes) : EndsNumeral (0x2C :: rest) := by
  simp [EndsNumeral, Decimal.isDigit]

theorem endsNumeral_brace (rest : Bytes) : EndsNumeral (0x7D :: rest) := by
  simp [EndsNumeral, Decimal.isDigit]

/-- A run of digits is taken as far as it goes. -/
theorem scanDigits_iff {s ds r : Bytes} :
    scanDigits s = .ok (ds, r) ↔ s = ds ++ r ∧ ds ≠ [] ∧ (∀ b ∈ ds, Decimal.isDigit b = true) ∧
      ∀ b ∈ r.head?, ¬ Decimal.isDigit b = true := by
  constructor
  · intro h
    unfold scanDigits at h
    split at h
    · cases h
    rename_i b rest
    split at h
    · rename_i digit
      simp only [spanDigits, Except.ok.injEq, Prod.mk.injEq] at h
      obtain ⟨rfl, rfl⟩ := h
      refine ⟨(List.takeWhile_append_dropWhile).symm, ?_, fun _ hc => List.mem_takeWhile_imp hc,
        fun c hc => ?_⟩
      · rw [List.takeWhile_cons_of_pos digit]
        exact List.cons_ne_nil _ _
      · have head := List.head?_dropWhile_not Decimal.isDigit (b :: rest)
        rw [Option.mem_def.mp hc] at head
        simpa using head
    · cases h
  · rintro ⟨rfl, nonempty, digits, stop⟩
    have rest : r.takeWhile Decimal.isDigit = [] ∧ r.dropWhile Decimal.isDigit = r := by
      cases r with
      | nil => exact ⟨rfl, rfl⟩
      | cons b r => exact ⟨List.takeWhile_cons_of_neg (stop b rfl),
          List.dropWhile_cons_of_neg (stop b rfl)⟩
    have span : spanDigits (ds ++ r) = (ds, r) := by
      rw [spanDigits, List.takeWhile_append_of_pos digits, List.dropWhile_append_of_pos digits,
        rest.1, rest.2, List.append_nil]
    cases ds with
    | nil => exact absurd rfl nonempty
    | cons d ds =>
      rw [List.cons_append] at span ⊢
      rw [scanDigits, if_pos (digits d List.mem_cons_self), span]

/-- The digits of a number begin with a digit. -/
theorem exists_digit (n : Nat) : ∃ d ds, Decimal.digits n = d :: ds ∧ Decimal.isDigit d = true := by
  cases hds : Decimal.digits n with
  | nil => exact absurd hds (Decimal.digits_ne_nil n)
  | cons d ds =>
    refine ⟨d, ds, rfl, Decimal.isDigit_of_mem_digits (n := n) ?_⟩
    rw [hds]
    exact List.mem_cons_self

theorem scanWhole_digits (n : Nat) {rest : Bytes} (h : EndsNumeral rest) :
    scanWhole (Decimal.digits n ++ rest) = .ok (Decimal.digits n, rest) := by
  have digits : scanDigits (Decimal.digits n ++ rest) = .ok (Decimal.digits n, rest) := by
    refine scanDigits_iff.mpr ⟨rfl, Decimal.digits_ne_nil n,
      fun _ => Decimal.isDigit_of_mem_digits, fun b hb => ?_⟩
    rw [(h b hb).1]
    exact Bool.false_ne_true
  have alone : ¬ ((Decimal.digits n).head? = some 0x30 ∧ 1 < (Decimal.digits n).length) := by
    rintro ⟨zero, long⟩
    rw [Decimal.eq_zero_of_head_digits zero] at long
    exact absurd long (by decide)
  simp only [scanWhole, digits, if_neg alone]

theorem scanFraction_nothing {rest : Bytes} (h : EndsNumeral rest) :
    scanFraction rest = .ok ([], rest) := by
  cases rest with
  | nil => rfl
  | cons b rest => rw [scanFraction, if_neg (h b rfl).2.1]

theorem scanExponent_nothing {rest : Bytes} (h : EndsNumeral rest) :
    scanExponent rest = .ok (none, rest) := by
  cases rest with
  | nil => rfl
  | cons b rest =>
    have hb : ¬ (b = 0x65 ∨ b = 0x45) := not_or.mpr (h b rfl).2.2
    simp only [scanExponent, if_neg hb]

theorem scanMagnitude_digits (negative : Bool) (n : Nat) {rest : Bytes} (h : EndsNumeral rest) :
    scanMagnitude negative (Decimal.digits n ++ rest)
      = .ok (⟨negative, Decimal.digits n, [], none⟩, rest) := by
  simp only [scanMagnitude, scanWhole_digits n h, scanFraction_nothing h, scanExponent_nothing h]

/-- The digits of a number are scanned as a numeral without point and exponent. -/
theorem scanNumeral_digits (n : Nat) {rest : Bytes} (h : EndsNumeral rest) :
    scanNumeral (Decimal.digits n ++ rest) = .ok (⟨false, Decimal.digits n, [], none⟩, rest) := by
  have magnitude := scanMagnitude_digits false n h
  obtain ⟨d, ds, hds, hd⟩ := exists_digit n
  have noSign : d ≠ 0x2D := by
    rintro rfl
    exact absurd hd (by decide)
  rw [hds, List.cons_append] at magnitude ⊢
  rw [scanNumeral, if_neg noSign, magnitude]

/-- All digits are taken of a number that fits into 64 bits. -/
theorem absorb_eq {ds : Bytes} {n : Nat}
    (h : (ds.map Decimal.digitValue).foldl (fun n d => 10 * n + d) n < 2 ^ 64) :
    absorb n ds = ((ds.map Decimal.digitValue).foldl (fun n d => 10 * n + d) n, []) := by
  induction ds generalizing n with
  | nil => rfl
  | cons d ds ih =>
    rw [List.map_cons, List.foldl_cons] at h ⊢
    have fits : 10 * n + Decimal.digitValue d < UInt64.size := by
      refine lt_of_le_of_lt ?_ h
      rw [Decimal.number_foldl]
      exact le_add_right (Nat.le_mul_of_pos_left _ (Nat.pow_pos (by decide)))
    rw [absorb]
    simp only [if_pos fits]
    exact ih h

theorem absorb_digits {n : Nat} (h : n < 2 ^ 64) : absorb 0 (Decimal.digits n) = (n, []) := by
  have number : ((Decimal.digits n).map Decimal.digitValue).foldl (fun n d => 10 * n + d) 0 = n :=
    Decimal.number_digits n
  rw [absorb_eq (by rw [number]; exact h), number]

theorem value_digits {n : Nat} (h : n < 2 ^ 64) :
    Numeral.value ⟨false, Decimal.digits n, [], none⟩ = .ok (.integer n) := by
  simp only [Numeral.value, absorb_digits h, if_true]

/-- With a sign the digits stand for the negative number, as far as those go in 64 bits. -/
theorem value_negative {n : Nat} (pos : 0 < n) (fits : n ≤ 2 ^ 63) :
    Numeral.value ⟨true, Decimal.digits n, [], none⟩ = .ok (.integer (-n)) := by
  have range : 0 < n ∧ n ≤ UInt64.size / 2 := ⟨pos, fits⟩
  simp only [Numeral.value, absorb_digits (show n < 2 ^ 64 by omega), if_pos range,
    Bool.true_eq_false, if_false]

/-- A number of at most 64 bits is read back from its digits. -/
theorem scanNumber_digits {n : Nat} (hn : n < 2 ^ 64) {rest : Bytes} (h : EndsNumeral rest) :
    scanNumber (Decimal.digits n ++ rest) = .ok (.integer n, rest) := by
  simp only [scanNumber, scanNumeral_digits n h, value_digits hn]

theorem scanNumeral_ofInt (n : Int) {rest : Bytes} (h : EndsNumeral rest) :
    scanNumeral (Decimal.ofInt n ++ rest)
      = .ok (⟨decide (n < 0), Decimal.digits n.natAbs, [], none⟩, rest) := by
  unfold Decimal.ofInt
  split
  · rename_i negative
    rw [List.cons_append, scanNumeral, if_pos rfl, scanMagnitude_digits true _ h,
      decide_eq_true negative]
  · rename_i positive
    rw [scanNumeral_digits _ h, decide_eq_false positive]

/-- An integer of 64 bits is read back from its digits, with a sign or without. -/
theorem scanNumber_ofInt {n : Int} (least : -2 ^ 63 ≤ n) (most : n < 2 ^ 64) {rest : Bytes}
    (h : EndsNumeral rest) : scanNumber (Decimal.ofInt n ++ rest) = .ok (.integer n, rest) := by
  have value : Numeral.value ⟨decide (n < 0), Decimal.digits n.natAbs, [], none⟩
      = .ok (.integer n) := by
    by_cases negative : n < 0
    · have same : -(n.natAbs : Int) = n := by omega
      rw [decide_eq_true negative, value_negative (by omega) (by omega), same]
    · have same : (n.natAbs : Int) = n := by omega
      rw [decide_eq_false negative, value_digits (by omega), same]
  simp only [scanNumber, scanNumeral_ofInt n h, value]

theorem skipNumeral_ofInt (n : Int) {rest : Bytes} (h : EndsNumeral rest) :
    skipNumeral (Decimal.ofInt n ++ rest) = .ok rest := by
  simp only [skipNumeral, scanNumeral_ofInt n h]

theorem ofInt_natCast (n : Nat) : Decimal.ofInt n = Decimal.digits n := by
  simp [Decimal.ofInt]

/-- The digits of a number begin with a byte that begins a numeral and is no blank. -/
theorem digits_eq_cons (n : Nat) :
    ∃ d ds, Decimal.digits n = d :: ds ∧ beginsNumeral d = true ∧ isBlank d = false := by
  obtain ⟨d, ds, hds, hd⟩ := exists_digit n
  refine ⟨d, ds, hds, by rw [beginsNumeral, hd, Bool.or_true], ?_⟩
  rw [← Bool.not_eq_true]
  intro hb
  simp only [isBlank, Bool.or_eq_true, decide_eq_true_eq] at hb
  rcases hb with ((rfl | rfl) | rfl) | rfl <;> exact absurd hd (by decide)

/-- An integer begins with such a byte as well, which may be its sign. -/
theorem ofInt_eq_cons (n : Int) :
    ∃ d ds, Decimal.ofInt n = d :: ds ∧ beginsNumeral d = true ∧ isBlank d = false := by
  unfold Decimal.ofInt
  split
  · exact ⟨0x2D, _, rfl, rfl, rfl⟩
  · exact digits_eq_cons _

/-- No word begins with a byte that begins a numeral. -/
theorem ne_of_beginsNumeral {b : UInt8} (begins : beginsNumeral b = true) :
    b ≠ 0x6E ∧ b ≠ 0x74 ∧ b ≠ 0x66 := by
  refine ⟨?_, ?_, ?_⟩ <;> rintro rfl <;> exact absurd begins (by decide)

/-! ### Values -/

theorem skipBlank_cons {b : UInt8} (h : isBlank b = false) (rest : Bytes) :
    skipBlank (b :: rest) = b :: rest := by
  simp [skipBlank, h]

theorem readString_quoted (expected s : String) (rest : Bytes) :
    readString expected (quoted s ++ rest) = .ok (s, rest) := by
  rw [quoted_append, readString, skipBlank_cons (by decide)]
  exact scanString_quoted s rest

theorem readNatBelow_digits {n bound : Nat} (hn : n < bound) (h64 : n < 2 ^ 64) (expected : String)
    {rest : Bytes} (h : EndsNumeral rest) :
    readNatBelow bound expected (Decimal.digits n ++ rest) = .ok (n, rest) := by
  have read := scanNumber_digits h64 h
  obtain ⟨d, ds, hds, begins, blank⟩ := digits_eq_cons n
  rw [hds, List.cons_append] at read ⊢
  have range : (0 : Int) ≤ (n : Int) ∧ (n : Int) < (bound : Int) := by omega
  rw [readNatBelow, skipBlank_cons blank]
  simp only [begins, if_true, read, if_pos range, Int.toNat_natCast]

/-- A scalar is passed over when its first piece is. -/
theorem skipValue_of_skipHead {s rest : Bytes} (h : skipHead [] s = .ok ⟨.after, [], rest⟩) :
    skipValue s = .ok rest := by
  have step : (Pending.mk .value [] s).step = .ok ⟨.after, [], rest⟩ := h
  rw [skipValue, Pending.finish, if_neg (by simp)]
  split
  · rename_i heq
    rw [step] at heq
    cases heq
  · rename_i heq
    rw [step] at heq
    cases heq
    rw [Pending.finish, if_pos ⟨rfl, rfl⟩]

theorem skipValue_quoted (s : String) (rest : Bytes) : skipValue (quoted s ++ rest) = .ok rest := by
  apply skipValue_of_skipHead
  rw [quoted_append, skipHead, skipBlank_cons (by decide)]
  simp only [skipString_escaped]
  rfl

theorem skipValue_ofInt (n : Int) {rest : Bytes} (h : EndsNumeral rest) :
    skipValue (Decimal.ofInt n ++ rest) = .ok rest := by
  have skip := skipNumeral_ofInt n h
  obtain ⟨d, ds, text, begins, blank⟩ := ofInt_eq_cons n
  have noWord := ne_of_beginsNumeral begins
  apply skipValue_of_skipHead
  rw [text, List.cons_append] at skip ⊢
  rw [skipHead, skipBlank_cons blank]
  simp only [if_neg noWord.1, if_neg noWord.2.1, if_neg noWord.2.2, begins, if_true, skip]
  rfl

theorem skipValue_digits (n : Nat) {rest : Bytes} (h : EndsNumeral rest) :
    skipValue (Decimal.digits n ++ rest) = .ok rest := by
  rw [← ofInt_natCast]
  exact skipValue_ofInt n h

/-! ### Members of a record -/

/-- A member as it is written. -/
def memberText (member : String × Json) : Bytes := quoted member.1 ++ 0x3A :: compact member.2

theorem compactMembers_cons (member : String × Json) (members : List (String × Json)) :
    compactMembers (member :: members)
      = memberText member ++ members.flatMap fun m => 0x2C :: memberText m := by
  induction members generalizing member with
  | nil => simp [compactMembers, memberText]
  | cons next members ih =>
    rw [compactMembers, ih next]
    simp [memberText]

/-- No numeral goes on where the next member or the end of an object stands. -/
theorem endsNumeral_members (members : List (String × Json)) (rest : Bytes) :
    EndsNumeral ((members.flatMap fun m => 0x2C :: memberText m) ++ 0x7D :: rest) := by
  cases members with
  | nil => exact endsNumeral_brace rest
  | cons member members => exact endsNumeral_comma _

/-- An object of members without newlines is written without newlines. -/
theorem newline_notMem_object {members : List (String × Json)}
    (h : ∀ m ∈ members, (0x0A : UInt8) ∉ memberText m) :
    (0x0A : UInt8) ∉ compact (.object members) := by
  have inside : (0x0A : UInt8) ∉ compactMembers members := by
    cases members with
    | nil => simp [compactMembers]
    | cons member members =>
      rw [compactMembers_cons, List.mem_append, List.mem_flatMap]
      rintro (first | ⟨m, hm, other⟩)
      · exact h member List.mem_cons_self first
      · rcases List.mem_cons.mp other with comma | other
        · exact absurd comma (by decide)
        · exact h m (List.mem_cons_of_mem _ hm) other
  simp [compact, inside]

/-- Members that are read one after the other turn one draft into another. -/
inductive Shape.Fills {α : Type} (shape : Shape α) : α → List (String × Json) → α → Prop where
  | nil (draft : α) : shape.Fills draft [] draft
  | cons {draft next last : α} {key : String} {value : Json} {members : List (String × Json)}
      (read : ∀ rest, EndsNumeral rest →
        shape.readMember draft key (0x3A :: (compact value ++ rest)) = .ok (next, rest))
      (more : shape.Fills next members last) :
      shape.Fills draft ((key, value) :: members) last

theorem Shape.Fills.append {α : Type} {shape : Shape α} {a b c : α} {ms ns : List (String × Json)}
    (h : shape.Fills a ms b) (k : shape.Fills b ns c) : shape.Fills a (ms ++ ns) c := by
  induction h with
  | nil draft => exact k
  | cons read more ih => exact .cons read (ih k)

theorem nextKey_brace (first : Bool) (rest : Bytes) :
    nextKey first (0x7D :: rest) = .ok (.closed rest) := by
  rw [nextKey, skipBlank_cons (by decide)]
  rfl

theorem nextKey_quote (rest : Bytes) : nextKey true (0x22 :: rest) = .ok (.item rest) := by
  rw [nextKey, skipBlank_cons (by decide)]
  rfl

theorem nextKey_comma (rest : Bytes) :
    nextKey false (0x2C :: 0x22 :: rest) = .ok (.item rest) := by
  rw [nextKey, skipBlank_cons (by decide)]
  simp only [skipBlank_cons (show isBlank 0x22 = false by decide)]
  rfl

/-- Where the key of a member comes next, the member is read and then what follows. -/
theorem readMembers_member {α : Type} {shape : Shape α} {draft next : α} {key : String}
    {value : Json} {fuel : Nat} {first : Bool} {s rest : Bytes}
    (hkey : nextKey first s
      = .ok (.item ((Utf8.encode key).flatMap escapeByte ++ 0x22 :: 0x3A :: (compact value ++ rest))))
    (read : shape.readMember draft key (0x3A :: (compact value ++ rest)) = .ok (next, rest)) :
    shape.readMembers (fuel + 1) first draft s = shape.readMembers fuel false next rest := by
  rw [Shape.readMembers, hkey]
  simp only [scanString_quoted, read]

/-- Written members are read up to the closing brace. -/
theorem readMembers_flatMap {α : Type} {shape : Shape α} {draft last : α}
    {members : List (String × Json)} (h : shape.Fills draft members last) {fuel : Nat}
    (enough : members.length < fuel) (rest : Bytes) :
    shape.readMembers fuel false draft
        ((members.flatMap fun m => 0x2C :: memberText m) ++ 0x7D :: rest) = .ok (last, rest) := by
  induction h generalizing fuel with
  | nil draft =>
    cases fuel with
    | zero => exact absurd enough (by omega)
    | succ fuel => simp only [List.flatMap_nil, List.nil_append, Shape.readMembers, nextKey_brace]
  | @cons draft next last key value members read more ih =>
    cases fuel with
    | zero => exact absurd enough (by omega)
    | succ fuel =>
      rw [← @ih fuel (by simpa using enough)]
      refine readMembers_member ?_ (read _ (endsNumeral_members members rest))
      simp only [List.flatMap_cons, memberText, List.cons_append, List.append_assoc]
      rw [quoted_append, nextKey_comma]

/-- Every member takes at least the comma before it. -/
theorem length_le_flatMap (members : List (String × Json)) :
    members.length ≤ (members.flatMap fun m => 0x2C :: memberText m).length := by
  induction members with
  | nil => exact Nat.zero_le _
  | cons member members ih =>
    rw [List.flatMap_cons, List.length_append, List.length_cons, List.length_cons]
    omega

/-- An object that gives a record all it requires is read as that record. -/
theorem read_object {α : Type} {shape : Shape α} {draft last : α}
    {members : List (String × Json)} (h : shape.Fills draft members last)
    (whole : shape.missing? last = none) (rest : Bytes) :
    shape.read draft (compact (.object members) ++ rest) = .ok (last, rest) := by
  have text : compact (.object members) ++ rest
      = 0x7B :: (compactMembers members ++ 0x7D :: rest) := by
    simp [compact]
  have all : shape.readMembers ((compactMembers members ++ 0x7D :: rest).length + 1) true draft
      (compactMembers members ++ 0x7D :: rest) = .ok (last, rest) := by
    cases h with
    | nil draft => simp only [compactMembers, List.nil_append, Shape.readMembers, nextKey_brace]
    | @cons draft next last key value members read more =>
      have enough : members.length
          < (compactMembers ((key, value) :: members) ++ 0x7D :: rest).length := by
        have long := length_le_flatMap members
        rw [compactMembers_cons, List.length_append, List.length_append, List.length_cons]
        omega
      rw [← readMembers_flatMap more enough rest]
      refine readMembers_member ?_ (read _ (endsNumeral_members members rest))
      rw [compactMembers_cons, memberText]
      simp only [List.append_assoc, List.cons_append]
      rw [quoted_append, nextKey_quote]
  rw [text, Shape.read, skipBlank_cons (by decide)]
  simp only [if_true, Shape.readObject, all, whole]

end DiskQueue.Json
