/-
Module: DiskQueue.Settings
Purpose: The settings of a queue, as they stand in a settings file.
Trusted boundary: none
Main exports:
  Capacity, Settings, Settings.validate, Settings.toJson, Settings.ofText
-/
import DiskQueue.Json.Fields
import DiskQueue.Json.Name
import DiskQueue.Json.Printer
import DiskQueue.RefillOrder
import DiskQueue.SettingsError

namespace DiskQueue

/-!
A settings file is one JSON record. Every field may be left out and has a
default. The capacity may be written as a number of megabytes or as a text; a
text is not looked into here.

Settings are refused if a batch would hold no record, if a file would never be
deleted, or if the directory is the empty path. The first of these that applies
is reported.
-/

/-- A capacity as it was asked for. -/
inductive Capacity where
  | megabytes (n : Int64)
  | text (s : String)
deriving Repr, DecidableEq

namespace Capacity

/-- A capacity as a text. -/
def asText : Capacity → String
  | .megabytes n => String.ofList ((Decimal.ofInt n.toInt).map fun b => Char.ofNat b.toNat)
  | .text s => s

/-- A capacity as it is written in a settings file. -/
def toJson : Capacity → Json
  | .megabytes n => .number (.integer n.toInt)
  | .text s => .string s

/-- The capacity that a JSON value stands for. -/
def ofJson? : Json → Option Capacity
  | .number (.integer n) =>
    if Int64.minValue.toInt ≤ n ∧ n ≤ Int64.maxValue.toInt then some (.megabytes (Int64.ofInt n)) else none
  | .string s => some (.text s)
  | _ => none

/-- Reads a capacity. The whole value is read before it is looked at, so brackets
in it may be nested only so deep. -/
def read (s : Bytes) : Json.Scan Capacity :=
  match Json.readValue 127 s with
  | .error fault => .error fault
  | .ok (value, rest) =>
    match ofJson? value with
    | some capacity => .ok (capacity, rest)
    | none => .error (.noVariant "CapacitySetting")

end Capacity

/-- The settings of a queue. -/
structure Settings where
  directory : Option Path
  capacity : Option Capacity
  cacheSize : UInt64
  deleteAttempts : UInt32
  deleteBackoffMs : UInt64
  refillOrder : RefillOrder
deriving Repr, DecidableEq

namespace Settings

/-- What is used where nothing is set. -/
def default : Settings where
  directory := none
  capacity := none
  cacheSize := 128
  deleteAttempts := 2
  deleteBackoffMs := 100
  refillOrder := .highestNames

/-- The capacity as a text, if one is set. -/
def capacityText (settings : Settings) : Option String := settings.capacity.map Capacity.asText

/-! ### Writing -/

/-- The members of a settings file. -/
def members (settings : Settings) : List (String × Json) :=
  [("directory", (settings.directory.map fun path => Json.string (Utf8.lossy path)).getD .null),
   ("capacity_mb", (settings.capacity.map Capacity.toJson).getD .null),
   ("cache_size", .number (.integer settings.cacheSize.toNat)),
   ("delete_attempts", .number (.integer settings.deleteAttempts.toNat)),
   ("delete_backoff_ms", .number (.integer settings.deleteBackoffMs.toNat)),
   ("refill_order", .string settings.refillOrder.name)]

/-- Settings as a JSON value. -/
def toJson (settings : Settings) : Json := .object settings.members

/-! ### Reading -/

/-- Settings that are not read to their end: each field with what was found for it. -/
structure Draft where
  directory : Option (Option String)
  capacity : Option (Option Capacity)
  cacheSize : Option Nat
  deleteAttempts : Option Nat
  deleteBackoffMs : Option Nat
  refillOrder : Option String
deriving Repr, DecidableEq

/-- Nothing read. -/
def Draft.blank : Draft := ⟨none, none, none, none, none, none⟩

/-- The settings for a draft, with the defaults for what was not found. -/
def Draft.complete (draft : Draft) : Settings where
  directory := (draft.directory.getD none).map Utf8.encode
  capacity := draft.capacity.getD none
  cacheSize := (draft.cacheSize.map UInt64.ofNat).getD default.cacheSize
  deleteAttempts := (draft.deleteAttempts.map UInt32.ofNat).getD default.deleteAttempts
  deleteBackoffMs := (draft.deleteBackoffMs.map UInt64.ofNat).getD default.deleteBackoffMs
  refillOrder := (draft.refillOrder.bind RefillOrder.ofName?).getD default.refillOrder

/-- A field that may be left out. -/
def field {α : Type} (key : String) (get : Draft → Option α) (set : Draft → α → Draft)
    (read : Bytes → Json.Scan α) : Json.Field Draft where
  key := key
  required := false
  isSet := fun draft => (get draft).isSome
  read := fun draft s => (read s).map fun r => (set draft r.1, r.2)

/-- The fields of a settings file. -/
def shape : Json.Shape Draft where
  name := "struct SpoolConfig"
  fields :=
    [field "directory" Draft.directory (fun draft found => { draft with directory := some found })
       (Json.readOptional (Json.readString "path string")),
     field "capacity_mb" Draft.capacity (fun draft found => { draft with capacity := some found })
       (Json.readOptional Capacity.read),
     field "cache_size" Draft.cacheSize (fun draft found => { draft with cacheSize := some found })
       (Json.readNatBelow UInt64.size "usize"),
     field "delete_attempts" Draft.deleteAttempts
       (fun draft found => { draft with deleteAttempts := some found })
       (Json.readNatBelow UInt32.size "u32"),
     field "delete_backoff_ms" Draft.deleteBackoffMs
       (fun draft found => { draft with deleteBackoffMs := some found })
       (Json.readNatBelow UInt64.size "u64"),
     field "refill_order" Draft.refillOrder
       (fun draft found => { draft with refillOrder := some found })
       (Json.readName (RefillOrder.all.map RefillOrder.name))]

/-- Settings that make no sense are refused. -/
def validate (settings : Settings) : Except SettingsError Unit :=
  if settings.cacheSize = 0 then .error (.invalidValue "cache_size" "Must be at least 1")
  else if settings.deleteAttempts = 0 then
    .error (.invalidValue "delete_attempts" "Must be at least 1")
  else if settings.directory = some [] then .error (.invalidValue "directory" "Must not be empty")
  else .ok ()

/-- The settings that a JSON text holds. -/
def ofText (text : Bytes) : Except SettingsError Settings :=
  match Json.finish (shape.read Draft.blank text) with
  | .error fault => .error (.malformed fault)
  | .ok draft =>
    match draft.complete.validate with
    | .error e => .error e
    | .ok () => .ok draft.complete

/-- The defaults make sense. -/
theorem validate_default : default.validate = .ok () := rfl

end Settings
end DiskQueue
