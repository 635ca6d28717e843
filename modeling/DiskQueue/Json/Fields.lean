/-
Module: DiskQueue.Json.Fields
Purpose: Records in JSON.
Trusted boundary: none
Main exports:
  Json.Field, Json.Shape, Json.Shape.read
-/
import DiskQueue.Json.Skip
import DiskQueue.Json.Value

namespace DiskQueue.Json

/-!
A record is an object whose members are its fields, in any order, or a list of its fields in the
order of their declaration. A field may come only once; members that are no fields are passed over
and may come more than once. What has been read so far is kept in a draft.
-/

/-- A field of a record: its key, whether it may be left out, whether a draft has it already, and
how its value is read into a draft. -/
structure Field (α : Type) where
  key : String
  required : Bool
  isSet : α → Bool
  read : α → Bytes → Scan α

/-- What a record is called in messages, and its fields in the order of their declaration. -/
structure Shape (α : Type) where
  name : String
  fields : List (Field α)

/-- The words for a record with all of its fields. -/
def Shape.whole {α : Type} (shape : Shape α) : String :=
  let n := shape.fields.length
  if n = 1 then s!"{shape.name} with 1 element" else s!"{shape.name} with {n} elements"

/-- The field with a given key. -/
def Shape.field? {α : Type} (shape : Shape α) (key : String) : Option (Field α) :=
  shape.fields.find? fun field => field.key == key

/-- Reads the value of a member, after its key. -/
def Shape.readMember {α : Type} (shape : Shape α) (draft : α) (key : String) (s : Bytes) : Scan α :=
  match shape.field? key with
  | some field =>
    if field.isSet draft then .error (.duplicateField key)
    else
      match scanColon s with
      | .error f => .error f
      | .ok rest => field.read draft rest
  | none =>
    match scanColon s with
    | .error f => .error f
    | .ok rest => (skipValue rest).map fun rest => (draft, rest)

/-- Reads the remaining members and the closing brace. Every member takes at least one byte, so the
length of the text is fuel enough. -/
def Shape.readMembers {α : Type} (shape : Shape α) (fuel : Nat) (first : Bool) (draft : α)
    (s : Bytes) : Scan α :=
  match fuel with
  | 0 => .error .endInObject
  | fuel + 1 =>
    match nextKey first s with
    | .error f => .error f
    | .ok (.closed rest) => .ok (draft, rest)
    | .ok (.item rest) =>
      match scanString rest with
      | .error f => .error f
      | .ok (key, rest) =>
        match shape.readMember draft key rest with
        | .error f => .error f
        | .ok (draft, rest) => shape.readMembers fuel false draft rest

/-- The first required field that a draft lacks. -/
def Shape.missing? {α : Type} (shape : Shape α) (draft : α) : Option String :=
  (shape.fields.find? fun field => field.required && !field.isSet draft).map Field.key

/-- A record written as an object, after its opening brace. -/
def Shape.readObject {α : Type} (shape : Shape α) (draft : α) (s : Bytes) : Scan α :=
  match shape.readMembers (s.length + 1) true draft s with
  | .error f => .error f
  | .ok (draft, rest) =>
    match shape.missing? draft with
    | some key => .error (.missingField key)
    | none => .ok (draft, rest)

/-- The end of a list that has an item for every field. -/
def closeList {α : Type} (draft : α) (s : Bytes) : Scan α :=
  match skipBlank s with
  | [] => .error .endInList
  | b :: rest =>
    if b = 0x5D then .ok (draft, rest)
    else if b = 0x2C ∧ (skipBlank rest).head? = some 0x5D then .error .trailingComma
    else .error .trailingCharacters

/-- The position of the first required field of a list. -/
def firstRequired? {α : Type} (fields : List (Field α)) : Option Nat :=
  fields.findIdx? Field.required

/-- Reads the remaining fields of a record written as a list; `position` of them have been read. -/
def Shape.readPositions {α : Type} (shape : Shape α) (position : Nat) (fields : List (Field α))
    (draft : α) (s : Bytes) : Scan α :=
  match fields with
  | [] => closeList draft s
  | field :: fields =>
    match nextItem (position = 0) s with
    | .error f => .error f
    | .ok (.closed rest) =>
      match firstRequired? (field :: fields) with
      | some i => .error (.invalidLength (position + i) shape.whole)
      | none => .ok (draft, rest)
    | .ok (.item rest) =>
      match field.read draft rest with
      | .error f => .error f
      | .ok (draft, rest) => shape.readPositions (position + 1) fields draft rest

/-- Reads a record. -/
def Shape.read {α : Type} (shape : Shape α) (draft : α) (s : Bytes) : Scan α :=
  match skipBlank s with
  | [] => .error .endInValue
  | b :: rest =>
    if b = 0x7B then shape.readObject draft rest
    else if b = 0x5B then shape.readPositions 0 shape.fields draft rest
    else .error (mismatch shape.name (b :: rest))

end DiskQueue.Json
