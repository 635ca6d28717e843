/-
Module: DiskQueue.Json.Value
Purpose: JSON values, and how they are read.
Trusted boundary: none
Main exports:
  Json, Json.readValue
-/
import DiskQueue.Json.Typed

namespace DiskQueue

/-!
A value that is wanted whole is read into `Json`. Brackets may be nested only so deep; everything in
them is checked, also what is not used later. The items of a list and the members of an object are
told apart by what `nextItem` and `nextKey` find before them.
-/

/-- A JSON value. The members of an object keep their order. -/
inductive Json where
  | null
  | boolean (b : Bool)
  | number (n : Json.Number)
  | string (s : String)
  | array (items : List Json)
  | object (members : List (String × Json))
deriving Repr, Inhabited

namespace Json

/-- What stands between two items: the end of the bracket, or another item, with the text from
there on. -/
inductive More where
  | closed (rest : Bytes)
  | item (rest : Bytes)
deriving Repr, DecidableEq

/-- Looks for the next item of a list. The first item has no comma before it. -/
def nextItem (first : Bool) (s : Bytes) : Except Fault More :=
  match skipBlank s with
  | [] => .error .endInList
  | b :: rest =>
    if b = 0x5D then .ok (.closed rest)
    else if first then .ok (.item (b :: rest))
    else if b = 0x2C then
      match skipBlank rest with
      | [] => .error .endInValue
      | c :: rest => if c = 0x5D then .error .trailingComma else .ok (.item (c :: rest))
    else .error .expectedCommaOrBracket

/-- Looks for the next member of an object, and takes the opening quote of its key. -/
def nextKey (first : Bool) (s : Bytes) : Except Fault More :=
  match skipBlank s with
  | [] => .error .endInObject
  | b :: rest =>
    if b = 0x7D then .ok (.closed rest)
    else if first then
      if b = 0x22 then .ok (.item rest) else .error .keyNotString
    else if b = 0x2C then
      match skipBlank rest with
      | [] => .error .endInValue
      | c :: rest =>
        if c = 0x22 then .ok (.item rest)
        else if c = 0x7D then .error .trailingComma
        else .error .keyNotString
    else .error .expectedCommaOrBrace

mutual

/-- Reads a value with at most `depth - 1` brackets around its innermost part. Every call takes at
least half a byte, so twice the length of the text is fuel enough. -/
def readValueWithin (fuel depth : Nat) (s : Bytes) : Scan Json :=
  match fuel with
  | 0 => .error .tooDeep
  | fuel + 1 =>
    match skipBlank s with
    | [] => .error .endInValue
    | b :: rest =>
      if b = 0x6E then (scanWord nullTail rest).map fun r => (.null, r)
      else if b = 0x74 then (scanWord trueTail rest).map fun r => (.boolean true, r)
      else if b = 0x66 then (scanWord falseTail rest).map fun r => (.boolean false, r)
      else if beginsNumeral b then (scanNumber (b :: rest)).map fun p => (.number p.1, p.2)
      else if b = 0x22 then (scanString rest).map fun p => (.string p.1, p.2)
      else if b = 0x5B then
        if depth ≤ 1 then .error .tooDeep
        else (readItems fuel (depth - 1) true rest).map fun p => (.array p.1, p.2)
      else if b = 0x7B then
        if depth ≤ 1 then .error .tooDeep
        else (readMembers fuel (depth - 1) true rest).map fun p => (.object p.1, p.2)
      else .error .expectedValue

/-- Reads the remaining items of a list and its closing bracket. -/
def readItems (fuel depth : Nat) (first : Bool) (s : Bytes) : Scan (List Json) :=
  match fuel with
  | 0 => .error .tooDeep
  | fuel + 1 =>
    match nextItem first s with
    | .error f => .error f
    | .ok (.closed rest) => .ok ([], rest)
    | .ok (.item rest) =>
      match readValueWithin fuel depth rest with
      | .error f => .error f
      | .ok (item, rest) =>
        (readItems fuel depth false rest).map fun p => (item :: p.1, p.2)

/-- Reads the remaining members of an object and its closing bracket. -/
def readMembers (fuel depth : Nat) (first : Bool) (s : Bytes) : Scan (List (String × Json)) :=
  match fuel with
  | 0 => .error .tooDeep
  | fuel + 1 =>
    match nextKey first s with
    | .error f => .error f
    | .ok (.closed rest) => .ok ([], rest)
    | .ok (.item rest) =>
      match scanString rest with
      | .error f => .error f
      | .ok (key, rest) =>
        match scanColon rest with
        | .error f => .error f
        | .ok rest =>
          match readValueWithin fuel depth rest with
          | .error f => .error f
          | .ok (value, rest) =>
            (readMembers fuel depth false rest).map fun p => ((key, value) :: p.1, p.2)

end

/-- Reads a value that may be nested `depth` brackets deep, the last one excluded. -/
def readValue (depth : Nat) (s : Bytes) : Scan Json := readValueWithin (2 * s.length + 2) depth s

end Json
end DiskQueue
