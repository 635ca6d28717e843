/-
Module: DiskQueue.Json.Scan
Purpose: The pieces of a JSON text.
Trusted boundary: none
Main exports:
  Json.Scan, Json.skipBlank, Json.scanString, Json.skipString, Json.scanNumeral,
  Json.skipNumeral
-/
import DiskQueue.Decimal
import DiskQueue.Json.Fault

namespace DiskQueue.Json

/-!
Each scanner takes a piece off the front of a byte string and gives back what follows it. Blanks are
space, tab, line feed and carriage return. A string ends at the first quote that no backslash
precedes; its escapes are resolved while it is read, and the result must be UTF-8. A string that is
only passed over needs well-formed escapes and no control characters, but no more.
-/

/-- A piece taken off the front of a text, and the rest. -/
abbrev Scan (α : Type) := Except Fault (α × Bytes)

/-- The bytes that may stand between two tokens. -/
def isBlank (b : UInt8) : Bool := b = 0x20 || b = 0x09 || b = 0x0A || b = 0x0D

/-- The text after the blanks at its front. -/
def skipBlank (s : Bytes) : Bytes := s.dropWhile isBlank

/-- Takes the remaining letters of a word such as `null`. -/
def scanWord : Bytes → Bytes → Except Fault Bytes
  | [], s => .ok s
  | _ :: _, [] => .error .endInValue
  | e :: es, b :: s => if b = e then scanWord es s else .error .expectedIdent

theorem skipBlank_length (s : Bytes) : (skipBlank s).length ≤ s.length :=
  (List.dropWhile_sublist _).length_le

theorem scanWord_length {w s r : Bytes} (h : scanWord w s = .ok r) : r.length ≤ s.length := by
  induction w generalizing s with
  | nil => simp only [scanWord, Except.ok.injEq] at h; simp [h]
  | cons e es ih =>
    cases s with
    | nil => cases h
    | cons b s =>
      simp only [scanWord] at h
      split at h
      · have := ih h; simp only [List.length_cons]; omega
      · cases h

/-- The letters of `null` after the first. -/
def nullTail : Bytes := Utf8.encode "ull"

/-- The letters of `true` after the first. -/
def trueTail : Bytes := Utf8.encode "rue"

/-- The letters of `false` after the first. -/
def falseTail : Bytes := Utf8.encode "alse"

/-! ### Strings -/

/-- The value of a hexadecimal digit. -/
def hexValue? (b : UInt8) : Option Nat :=
  if 0x30 ≤ b ∧ b ≤ 0x39 then some (b.toNat - 0x30)
  else if 0x41 ≤ b ∧ b ≤ 0x46 then some (b.toNat - 0x41 + 10)
  else if 0x61 ≤ b ∧ b ≤ 0x66 then some (b.toNat - 0x61 + 10)
  else none

/-- The number written by four hexadecimal digits. -/
def scanHex4 : Bytes → Scan Nat
  | a :: b :: c :: d :: rest =>
    match hexValue? a, hexValue? b, hexValue? c, hexValue? d with
    | some a, some b, some c, some d => .ok (((a * 16 + b) * 16 + c) * 16 + d, rest)
    | _, _, _, _ => .error .invalidEscape
  | _ => .error .endInString

/-- The byte meant by a letter after a backslash. -/
def plainEscape? (b : UInt8) : Option UInt8 :=
  if b = 0x22 then some 0x22
  else if b = 0x5C then some 0x5C
  else if b = 0x2F then some 0x2F
  else if b = 0x62 then some 0x08
  else if b = 0x66 then some 0x0C
  else if b = 0x6E then some 0x0A
  else if b = 0x72 then some 0x0D
  else if b = 0x74 then some 0x09
  else none

/-- The second half of a surrogate pair, after the first half `high`. -/
def scanLowSurrogate (high : Nat) : Bytes → Scan Bytes
  | [] => .error .endInString
  | [b] => .error (if b = 0x5C then .endInString else .unpairedSurrogate)
  | b :: u :: rest =>
    if b = 0x5C ∧ u = 0x75 then
      match scanHex4 rest with
      | .error f => .error f
      | .ok (low, rest) =>
        if low < 0xDC00 ∨ 0xDFFF < low then .error .loneSurrogate
        else
          let code := 0x10000 + (high - 0xD800) * 0x400 + (low - 0xDC00)
          .ok (Utf8.encodeChar (Char.ofNat code), rest)
    else .error .unpairedSurrogate

/-- The bytes of a character written as `\uXXXX`, after the `u`. -/
def scanUnicodeEscape (s : Bytes) : Scan Bytes :=
  match scanHex4 s with
  | .error f => .error f
  | .ok (n, rest) =>
    if 0xDC00 ≤ n ∧ n ≤ 0xDFFF then .error .loneSurrogate
    else if 0xD800 ≤ n ∧ n ≤ 0xDBFF then scanLowSurrogate n rest
    else .ok (Utf8.encodeChar (Char.ofNat n), rest)

/-- The bytes meant by an escape, after its backslash. -/
def scanEscape : Bytes → Scan Bytes
  | [] => .error .endInString
  | b :: rest =>
    match plainEscape? b with
    | some e => .ok ([e], rest)
    | none => if b = 0x75 then scanUnicodeEscape rest else .error .invalidEscape

theorem scanHex4_length {s r : Bytes} {n : Nat} (h : scanHex4 s = .ok (n, r)) :
    r.length < s.length := by
  unfold scanHex4 at h
  split at h
  · split at h
    · cases h; simp; omega
    · cases h
  · cases h

theorem scanLowSurrogate_length {high : Nat} {s bs r : Bytes}
    (h : scanLowSurrogate high s = .ok (bs, r)) : r.length < s.length := by
  unfold scanLowSurrogate at h
  split at h
  · cases h
  · cases h
  · split at h
    · split at h
      · cases h
      · rename_i heq
        have hl := scanHex4_length heq
        split at h
        · cases h
        · simp only [Except.ok.injEq, Prod.mk.injEq] at h
          obtain ⟨-, rfl⟩ := h
          simp only [List.length_cons]; omega
    · cases h

theorem scanUnicodeEscape_length {s bs r : Bytes} (h : scanUnicodeEscape s = .ok (bs, r)) :
    r.length < s.length := by
  unfold scanUnicodeEscape at h
  split at h
  · cases h
  · rename_i heq
    have hl := scanHex4_length heq
    split at h
    · cases h
    · split at h
      · have := scanLowSurrogate_length h; omega
      · cases h; omega

/-- An escape is shorter than the text it is taken from. -/
theorem scanEscape_length {s bs r : Bytes} (h : scanEscape s = .ok (bs, r)) :
    r.length < s.length := by
  unfold scanEscape at h
  split at h
  · cases h
  · split at h
    · cases h; simp
    · split at h
      · have := scanUnicodeEscape_length h; simp; omega
      · cases h

/-- The bytes of a string with its escapes resolved, from after the opening quote to the closing
one. -/
def scanStringBytes (s : Bytes) : Scan Bytes :=
  match s with
  | [] => .error .endInString
  | b :: rest =>
    if b = 0x22 then .ok ([], rest)
    else if b = 0x5C then
      match _h : scanEscape rest with
      | .error f => .error f
      | .ok (bs, rest') =>
        match scanStringBytes rest' with
        | .error f => .error f
        | .ok (more, r) => .ok (bs ++ more, r)
    else if b < 0x20 then .error .controlCharacter
    else
      match scanStringBytes rest with
      | .error f => .error f
      | .ok (more, r) => .ok (b :: more, r)
termination_by s.length
decreasing_by
  · have := scanEscape_length _h; simp; omega
  · simp

/-- A string, from after its opening quote. -/
def scanString (s : Bytes) : Scan String :=
  match scanStringBytes s with
  | .error f => .error f
  | .ok (bs, rest) =>
    match Utf8.decode? bs with
    | some text => .ok (text, rest)
    | none => .error .notText

/-- Passes over a string, from after its opening quote. -/
def skipString : Bytes → Except Fault Bytes
  | [] => .error .endInString
  | b :: rest =>
    if b = 0x22 then .ok rest
    else if b = 0x5C then
      match rest with
      | [] => .error .endInString
      | e :: rest =>
        if (plainEscape? e).isSome then skipString rest
        else if e = 0x75 then
          match rest with
          | a :: b :: c :: d :: rest =>
            if (hexValue? a).isSome ∧ (hexValue? b).isSome ∧ (hexValue? c).isSome
                ∧ (hexValue? d).isSome then skipString rest
            else .error .invalidEscape
          | _ => .error .endInString
        else .error .invalidEscape
    else if b < 0x20 then .error .controlCharacter
    else skipString rest

theorem skipString_length {s r : Bytes} (h : skipString s = .ok r) : r.length < s.length := by
  induction length : s.length using Nat.strongRecOn generalizing s with
  | ind n ih =>
    subst length
    have shorter : ∀ {rest : Bytes}, rest.length < s.length → skipString rest = .ok r →
        r.length < s.length :=
      fun less passed => Nat.lt_trans (ih _ less passed rfl) less
    unfold skipString at h
    split at h
    · cases h
    split at h
    · cases h
      simp
    split at h
    · split at h
      · cases h
      split at h
      · exact shorter (by simp only [List.length_cons]; omega) h
      split at h
      · split at h
        · split at h
          · exact shorter (by simp only [List.length_cons]; omega) h
          · cases h
        · cases h
      · cases h
    split at h
    · cases h
    · exact shorter (by simp) h

/-! ### Numerals -/

/-- The parts of a numeral: its sign, the digits before and after the point, and the sign and
digits of its exponent. A numeral with no point has no digits after it. -/
structure Numeral where
  negative : Bool
  whole : Bytes
  fraction : Bytes
  exponent : Option (Bool × Bytes)
deriving Repr, DecidableEq

/-- A run of digits and what follows it. -/
def spanDigits (s : Bytes) : Bytes × Bytes :=
  (s.takeWhile Decimal.isDigit, s.dropWhile Decimal.isDigit)

/-- One or more digits. -/
def scanDigits (s : Bytes) : Scan Bytes :=
  match s with
  | [] => .error .endInValue
  | b :: _ => if Decimal.isDigit b then .ok (spanDigits s) else .error .invalidNumber

/-- The digits before the point: a zero stands alone. -/
def scanWhole (s : Bytes) : Scan Bytes :=
  match scanDigits s with
  | .error f => .error f
  | .ok (ds, rest) =>
    if ds.head? = some 0x30 ∧ 1 < ds.length then .error .invalidNumber else .ok (ds, rest)

/-- The digits after a point, none if there is no point. -/
def scanFraction : Bytes → Scan Bytes
  | [] => .ok ([], [])
  | b :: rest => if b = 0x2E then scanDigits rest else .ok ([], b :: rest)

/-- The exponent, if there is one; `true` is the sign of a positive one. -/
def scanExponent : Bytes → Scan (Option (Bool × Bytes))
  | [] => .ok (none, [])
  | b :: rest =>
    if b = 0x65 ∨ b = 0x45 then
      let (positive, rest) := match rest with
        | [] => (true, [])
        | c :: more => if c = 0x2B then (true, more) else if c = 0x2D then (false, more) else (true, rest)
      match scanDigits rest with
      | .error f => .error f
      | .ok (ds, rest) => .ok (some (positive, ds), rest)
    else .ok (none, b :: rest)

/-- A numeral without its sign. -/
def scanMagnitude (negative : Bool) (s : Bytes) : Scan Numeral :=
  match scanWhole s with
  | .error f => .error f
  | .ok (whole, s) =>
    match scanFraction s with
    | .error f => .error f
    | .ok (fraction, s) =>
      match scanExponent s with
      | .error f => .error f
      | .ok (exponent, s) => .ok (⟨negative, whole, fraction, exponent⟩, s)

/-- A numeral, from its sign or first digit on. -/
def scanNumeral : Bytes → Scan Numeral
  | [] => .error .endInValue
  | b :: rest => if b = 0x2D then scanMagnitude true rest else scanMagnitude false (b :: rest)

/-- Passes over a numeral, whatever its size. -/
def skipNumeral (s : Bytes) : Except Fault Bytes :=
  match scanNumeral s with
  | .error _ => .error .invalidNumber
  | .ok (_, rest) => .ok rest

theorem spanDigits_length (s : Bytes) : (spanDigits s).2.length ≤ s.length :=
  (List.dropWhile_sublist _).length_le

theorem scanDigits_length {s ds r : Bytes} (h : scanDigits s = .ok (ds, r)) :
    r.length < s.length := by
  unfold scanDigits at h
  split at h
  · cases h
  · rename_i b t
    split at h
    · rename_i hb
      simp only [Except.ok.injEq, spanDigits, Prod.mk.injEq] at h
      obtain ⟨-, rfl⟩ := h
      have := spanDigits_length t
      simp only [spanDigits] at this
      rw [List.dropWhile_cons_of_pos hb]
      simp only [List.length_cons]; omega
    · cases h

theorem scanWhole_length {s ds r : Bytes} (h : scanWhole s = .ok (ds, r)) :
    r.length < s.length := by
  unfold scanWhole at h
  split at h
  · cases h
  · rename_i heq
    have hl := scanDigits_length heq
    split at h
    · cases h
    · cases h; exact hl

theorem scanFraction_length {s ds r : Bytes} (h : scanFraction s = .ok (ds, r)) :
    r.length ≤ s.length := by
  unfold scanFraction at h
  split at h
  · cases h; simp
  · split at h
    · have := scanDigits_length h; simp only [List.length_cons]; omega
    · cases h; simp

theorem scanExponent_length {s r : Bytes} {e : Option (Bool × Bytes)}
    (h : scanExponent s = .ok (e, r)) : r.length ≤ s.length := by
  unfold scanExponent at h
  split at h
  · cases h; simp
  · rename_i b rest
    split at h
    · dsimp only at h
      split at h
      · cases h
      · rename_i heq
        cases h
        have hl := scanDigits_length heq
        have hs : (match rest with
          | [] => (true, [])
          | c :: more =>
            if c = 0x2B then (true, more) else if c = 0x2D then (false, more)
            else (true, rest)).2.length ≤ rest.length := by
          split
          · simp
          · split
            · simp
            · split <;> simp
        simp only [List.length_cons]; omega
    · cases h; simp

theorem scanMagnitude_length {negative : Bool} {s r : Bytes} {n : Numeral}
    (h : scanMagnitude negative s = .ok (n, r)) : r.length < s.length := by
  unfold scanMagnitude at h
  split at h
  · cases h
  · rename_i hw
    split at h
    · cases h
    · rename_i hf
      split at h
      · cases h
      · rename_i he
        cases h
        have := scanWhole_length hw
        have := scanFraction_length hf
        have := scanExponent_length he
        omega

theorem scanNumeral_length {s r : Bytes} {n : Numeral} (h : scanNumeral s = .ok (n, r)) :
    r.length < s.length := by
  unfold scanNumeral at h
  split at h
  · cases h
  · split at h
    · have := scanMagnitude_length h; simp only [List.length_cons]; omega
    · exact scanMagnitude_length h

theorem skipNumeral_length {s r : Bytes} (h : skipNumeral s = .ok r) : r.length < s.length := by
  unfold skipNumeral at h
  split at h
  · cases h
  · rename_i heq
    cases h
    exact scanNumeral_length heq

end DiskQueue.Json
