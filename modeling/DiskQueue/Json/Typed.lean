/-
Module: DiskQueue.Json.Typed
Purpose: Values of an expected kind.
Trusted boundary: none
Main exports:
  Json.mismatch, Json.readString, Json.readNatBelow, Json.readOptional,
  Json.finish, Json.scanColon
-/
import DiskQueue.Json.Number

namespace DiskQueue.Json

/-!
A reader for a value of one kind looks at the first byte after the blanks. If it begins a value of
another kind, that value is read as far as its description in the message needs it, so a fault of
form inside it comes first.
-/

/-- Bytes that begin a numeral. -/
def beginsNumeral (b : UInt8) : Bool := b = 0x2D || Decimal.isDigit b

/-- The fault for a value that does not have the expected kind. -/
def mismatch (expected : String) : Bytes → Fault
  | [] => .endInValue
  | b :: rest =>
    let named (r : Except Fault Bytes) (found : Found) : Fault :=
      match r with
      | .error f => f
      | .ok _ => .invalidType found expected
    if b = 0x6E then named (scanWord nullTail rest) .null
    else if b = 0x74 then named (scanWord trueTail rest) (.boolean true)
    else if b = 0x66 then named (scanWord falseTail rest) (.boolean false)
    else if beginsNumeral b then
      match scanNumber (b :: rest) with
      | .error f => f
      | .ok (n, _) => .invalidType n.found expected
    else if b = 0x22 then
      match scanString rest with
      | .error f => f
      | .ok (text, _) => .invalidType (.text text) expected
    else if b = 0x5B then .invalidType .sequence expected
    else if b = 0x7B then .invalidType .map expected
    else .expectedValue

/-- A string. -/
def readString (expected : String) (s : Bytes) : Scan String :=
  match skipBlank s with
  | [] => .error .endInValue
  | b :: rest => if b = 0x22 then scanString rest else .error (mismatch expected (b :: rest))

/-- A natural number below `bound`. -/
def readNatBelow (bound : Nat) (expected : String) (s : Bytes) : Scan Nat :=
  match skipBlank s with
  | [] => .error .endInValue
  | b :: rest =>
    if beginsNumeral b then
      match scanNumber (b :: rest) with
      | .error f => .error f
      | .ok (.floating x, _) => .error (.invalidType (Number.floating x).found expected)
      | .ok (.integer n, r) =>
        if 0 ≤ n ∧ n < bound then .ok (n.toNat, r) else .error (.outOfRange n expected)
    else .error (mismatch expected (b :: rest))

/-- Nothing for `null`, and else a value of some kind. -/
def readOptional {α : Type} (read : Bytes → Scan α) (s : Bytes) : Scan (Option α) :=
  let present : Scan (Option α) := (read s).map fun r => (some r.1, r.2)
  match skipBlank s with
  | [] => present
  | b :: rest => if b = 0x6E then (scanWord nullTail rest).map fun r => (none, r) else present

/-- The end of a text: only blanks may follow its value. -/
def finish {α : Type} : Scan α → Except Fault α
  | .error f => .error f
  | .ok (a, rest) => if skipBlank rest = [] then .ok a else .error .trailingCharacters

/-- A colon after a key. -/
def scanColon (s : Bytes) : Except Fault Bytes :=
  match skipBlank s with
  | [] => .error .endInObject
  | b :: rest => if b = 0x3A then .ok rest else .error .expectedColon

theorem scanColon_length {s r : Bytes} (h : scanColon s = .ok r) : r.length < s.length := by
  unfold scanColon at h
  have hb := skipBlank_length s
  split at h
  · cases h
  · rename_i heq
    split at h
    · cases h
      simp only [heq, List.length_cons] at hb
      omega
    · cases h

/-- The string that a text holds. -/
def stringOfText (text : Bytes) : Except Fault String := finish (readString "a string" text)

end DiskQueue.Json
