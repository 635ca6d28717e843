/-
Module: DiskQueue.Json.Name
Purpose: One of a number of names.
Trusted boundary: none
Main exports:
  Json.readName, Json.nameOfText
-/
import DiskQueue.Json.Value

namespace DiskQueue.Json

/-!
A name out of a list of names is written as a string, or as an object with the name as its only key
and `null` as the value. The key is looked up as soon as it has been read, before its colon. An
object without a key is no such value, and neither is one that goes on after its first member.
-/

/-- The `null` that stands for a variant without content. -/
def readUnit (s : Bytes) : Except Fault Bytes :=
  match skipBlank s with
  | [] => .error .endInValue
  | b :: rest =>
    if b = 0x6E then scanWord nullTail rest else .error (mismatch "unit" (b :: rest))

/-- One of the given names. -/
def pickName (names : List String) (found : String) : Except Fault String :=
  if names.contains found then .ok found else .error (.unknownVariant found names)

/-- A name is picked just if it is one of the given ones. -/
theorem pickName_eq_ok_iff {names : List String} {found name : String} :
    pickName names found = .ok name ↔ found ∈ names ∧ name = found := by
  by_cases h : found ∈ names
  · simp [pickName, h, eq_comm]
  · simp [pickName, h]

/-- The closing brace after the only member of an object. -/
def closeObject (s : Bytes) : Except Fault Bytes :=
  match skipBlank s with
  | [] => .error .endInObject
  | b :: rest => if b = 0x7D then .ok rest else .error .expectedValue

/-- A string that is one of the given names, from after its opening quote. -/
def scanName (names : List String) (s : Bytes) : Scan String :=
  match scanString s with
  | .error f => .error f
  | .ok (found, rest) => (pickName names found).map fun name => (name, rest)

/-- What follows the only key of an object: a colon, `null` and the closing brace. -/
def scanUnitMember (s : Bytes) : Except Fault Bytes := do
  closeObject (← readUnit (← scanColon s))

/-- One of the given names as the key of an object, after its opening brace. -/
def readNameObject (names : List String) (s : Bytes) : Scan String :=
  match nextKey true s with
  | .error f => .error f
  | .ok (.closed _) => .error .expectedValue
  | .ok (.item rest) =>
    match scanName names rest with
    | .error f => .error f
    | .ok (name, rest) => (scanUnitMember rest).map fun rest => (name, rest)

/-- One of the given names. -/
def readName (names : List String) (s : Bytes) : Scan String :=
  match skipBlank s with
  | [] => .error .endInValue
  | b :: rest =>
    if b = 0x22 then scanName names rest
    else if b = 0x7B then readNameObject names rest
    else .error .expectedValue

/-- The name that a text holds, one of the given names. -/
def nameOfText (names : List String) (text : Bytes) : Except Fault String :=
  finish (readName names text)

end DiskQueue.Json
