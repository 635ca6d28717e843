/-
Module: DiskQueue.Json.Printer
Purpose: JSON values as text.
Trusted boundary: none
Main exports:
  Json.quoted, Json.compact, Json.pretty
-/
import DiskQueue.Json.Value

namespace DiskQueue.Json

/-!
Strings are written with the short escapes where there is one, a numeric escape for the other
control characters, and all else as it is. A value is written without blanks (`compact`) or with one
member or item to a line (`pretty`).
-/

/-- A hexadecimal digit, lower case. -/
def hexDigit (n : Nat) : UInt8 := if n < 10 then UInt8.ofNat (0x30 + n) else UInt8.ofNat (0x57 + n)

/-- A byte of a string as it is written between quotes. -/
def escapeByte (b : UInt8) : Bytes :=
  if b = 0x22 then [0x5C, 0x22]
  else if b = 0x5C then [0x5C, 0x5C]
  else if b = 0x08 then [0x5C, 0x62]
  else if b = 0x0C then [0x5C, 0x66]
  else if b = 0x0A then [0x5C, 0x6E]
  else if b = 0x0D then [0x5C, 0x72]
  else if b = 0x09 then [0x5C, 0x74]
  else if b < 0x20 then
    [0x5C, 0x75, 0x30, 0x30, hexDigit (b.toNat / 16), hexDigit (b.toNat % 16)]
  else [b]

/-- A string between quotes. -/
def quoted (s : String) : Bytes := 0x22 :: (Utf8.encode s).flatMap escapeByte ++ [0x22]

/-- A number. What is not finite has no numeral. -/
def Number.print : Number → Bytes
  | .integer n => Decimal.ofInt n
  | .floating x =>
    if x.isFinite then Utf8.encode (Decimal.Shortest.render x) else Utf8.encode "null"

/-- Lines are indented by two blanks for every open bracket. -/
def newline (depth : Nat) : Bytes := 0x0A :: List.replicate (2 * depth) 0x20

mutual

/-- A value without blanks. -/
def compact : Json → Bytes
  | .null => Utf8.encode "null"
  | .boolean b => Utf8.encode (if b then "true" else "false")
  | .number n => n.print
  | .string s => quoted s
  | .array items => 0x5B :: compactItems items ++ [0x5D]
  | .object members => 0x7B :: compactMembers members ++ [0x7D]

/-- Items with commas between them. -/
def compactItems : List Json → Bytes
  | [] => []
  | [item] => compact item
  | item :: next :: items => compact item ++ 0x2C :: compactItems (next :: items)

/-- Members with commas between them. -/
def compactMembers : List (String × Json) → Bytes
  | [] => []
  | [(key, value)] => quoted key ++ 0x3A :: compact value
  | (key, value) :: next :: members =>
    quoted key ++ 0x3A :: compact value ++ 0x2C :: compactMembers (next :: members)

end

mutual

/-- A value with every item and member on a line of its own. -/
def prettyAt (depth : Nat) : Json → Bytes
  | .null => Utf8.encode "null"
  | .boolean b => Utf8.encode (if b then "true" else "false")
  | .number n => n.print
  | .string s => quoted s
  | .array [] => [0x5B, 0x5D]
  | .array (item :: items) =>
    0x5B :: prettyItems (depth + 1) (item :: items) ++ newline depth ++ [0x5D]
  | .object [] => [0x7B, 0x7D]
  | .object (member :: members) =>
    0x7B :: prettyMembers (depth + 1) (member :: members) ++ newline depth ++ [0x7D]

/-- Items on lines of their own. -/
def prettyItems (depth : Nat) : List Json → Bytes
  | [] => []
  | [item] => newline depth ++ prettyAt depth item
  | item :: next :: items =>
    newline depth ++ prettyAt depth item ++ 0x2C :: prettyItems depth (next :: items)

/-- Members on lines of their own. -/
def prettyMembers (depth : Nat) : List (String × Json) → Bytes
  | [] => []
  | [(key, value)] => newline depth ++ quoted key ++ [0x3A, 0x20] ++ prettyAt depth value
  | (key, value) :: next :: members =>
    newline depth ++ quoted key ++ [0x3A, 0x20] ++ prettyAt depth value
      ++ 0x2C :: prettyMembers depth (next :: members)

end

/-- A value laid out for reading. -/
def pretty (value : Json) : Bytes := prettyAt 0 value

end DiskQueue.Json
