/-
Module: DiskQueue.Record.Header
Purpose: The header line of a record.
Trusted boundary: none
Main exports:
  Record.Kind, Record.Header, Record.Header.line, Record.Header.read,
  Record.Kind.readTag
-/
import DiskQueue.Json.Fields
import DiskQueue.Json.Printer
import DiskQueue.Transmission

namespace DiskQueue.Record

/-!
The header of a record is one line of JSON. It names the format, the kind of the record, the labels
of the payload as far as they are not empty, and the number of bytes of the payload. The kind is
read on its own first, so that a record of a kind that is not allowed is refused for that reason
whatever else its header says.
-/

/-- The kinds of records: a transmission with its labels, and bare bytes. -/
inductive Kind where
  | transmission
  | rawBytes
deriving Repr, DecidableEq

/-- The word for a kind in a header. -/
def Kind.tag : Kind → String
  | .transmission => "transmission"
  | .rawBytes => "bytes"

/-- The kinds that may be read. -/
def Kind.allowed : List Kind := [.transmission, .rawBytes]

/-- The allowed kind for a word. -/
def Kind.ofTag? (tag : String) : Option Kind := Kind.allowed.find? fun kind => kind.tag == tag

/-- The number of the record format. -/
def formatVersion : Nat := 1

/-- What a header line says. -/
structure Header where
  format : Nat
  kind : String
  contentType : String
  contentEncoding : String
  length : Nat
deriving Repr, DecidableEq

/-- The header for a transmission. -/
def Header.ofTransmission (t : Transmission) : Header :=
  ⟨formatVersion, Kind.transmission.tag, t.contentType, t.contentEncoding, t.length⟩

/-- The header for bare bytes. -/
def Header.ofBytes (content : Bytes) : Header :=
  ⟨formatVersion, Kind.rawBytes.tag, "", "", content.length⟩

/-- The members of a header. A label that is empty is left out. -/
def Header.members (h : Header) : List (String × Json) :=
  [("format", .number (.integer h.format)), ("kind", .string h.kind)]
    ++ (if h.contentType = "" then [] else [("content_type", .string h.contentType)])
    ++ (if h.contentEncoding = "" then [] else [("content_encoding", .string h.contentEncoding)])
    ++ [("len", .number (.integer h.length))]

/-- A header as a line, without its newline. -/
def Header.line (h : Header) : Bytes := (Json.object h.members).compact

/-! ### Reading -/

/-- A header that is not read to its end. -/
structure Header.Draft where
  format : Option Nat
  kind : Option String
  contentType : Option String
  contentEncoding : Option String
  length : Option Nat
deriving Repr, DecidableEq

/-- Nothing read. -/
def Header.Draft.blank : Header.Draft := ⟨none, none, none, none, none⟩

/-- The header for a draft that has its required fields. Labels that were not given are empty. -/
def Header.Draft.complete (d : Header.Draft) : Header :=
  ⟨d.format.getD 0, d.kind.getD "", d.contentType.getD "", d.contentEncoding.getD "",
    d.length.getD 0⟩

/-- The record that holds the kind and no other field. -/
def Kind.shape : Json.Shape (Option String) where
  name := "struct KindTag"
  fields :=
    [{ key := "kind", required := true, isSet := Option.isSome,
       read := fun _ s => (Json.readString "a string" s).map fun r => (some r.1, r.2) }]

/-- A field that holds a string. -/
def Header.textField (key : String) (required : Bool) (get : Header.Draft → Option String)
    (set : Header.Draft → String → Header.Draft) : Json.Field Header.Draft where
  key := key
  required := required
  isSet := fun d => (get d).isSome
  read := fun d s => (Json.readString "a string" s).map fun r => (set d r.1, r.2)

/-- A field that holds a natural number below a bound. -/
def Header.numberField (key : String) (bound : Nat) (expected : String)
    (get : Header.Draft → Option Nat) (set : Header.Draft → Nat → Header.Draft) :
    Json.Field Header.Draft where
  key := key
  required := true
  isSet := fun d => (get d).isSome
  read := fun d s => (Json.readNatBelow bound expected s).map fun r => (set d r.1, r.2)

/-- The fields of a header. -/
def Header.shape : Json.Shape Header.Draft where
  name := "struct RecordHeader"
  fields :=
    [Header.numberField "format" UInt32.size "u32" Header.Draft.format
       fun d n => { d with format := some n },
     Header.textField "kind" true Header.Draft.kind fun d t => { d with kind := some t },
     Header.textField "content_type" false Header.Draft.contentType
       fun d t => { d with contentType := some t },
     Header.textField "content_encoding" false Header.Draft.contentEncoding
       fun d t => { d with contentEncoding := some t },
     Header.numberField "len" UInt64.size "u64" Header.Draft.length
       fun d n => { d with length := some n }]

/-- The word for the kind in a header line. -/
def Kind.readTag (line : Bytes) : Except Json.Fault String :=
  (Json.finish (Kind.shape.read none line)).map fun tag => tag.getD ""

/-- The header that a line holds. -/
def Header.read (line : Bytes) : Except Json.Fault Header :=
  (Json.finish (Header.shape.read Header.Draft.blank line)).map Header.Draft.complete

end DiskQueue.Record
