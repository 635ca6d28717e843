/-
Module: DiskQueue.SettingsError
Purpose: Why settings were refused.
Trusted boundary: none
Main exports:
  SettingsError, SettingsError.code, SettingsError.message
-/
import DiskQueue.IoError
import DiskQueue.Json.Fault
import DiskQueue.Path

namespace DiskQueue

/-!
A settings file may be unreadable, it may be no JSON of the expected shape, or it
may hold a value that makes no sense. Limits that contradict each other are a
mistake of the program that sets them.
-/

/-- Why settings were refused. -/
inductive SettingsError where
  | unreadable (path : Path) (cause : IoError)
  | malformed (fault : Json.Fault)
  | invalidValue (field : String) (text : String)
  | invalidLimits (name : String) (text : String)
deriving Repr, DecidableEq

namespace SettingsError

/-- The number of a refusal. -/
def code : SettingsError → Nat
  | .unreadable _ _ => 60
  | .malformed _ => 61
  | .invalidValue _ _ => 65
  | .invalidLimits _ _ => 67

/-- The message for a refusal. -/
def message : SettingsError → String
  | .unreadable path cause =>
    let file := Utf8.lossy path
    s!"I/O error reading {file}: {cause.message}"
  | .malformed fault => s!"Parse error: {fault.message}"
  | .invalidValue field text => s!"Invalid value for {field}: {text}"
  | .invalidLimits name text => s!"Invalid limits for {name}: {text}"

end SettingsError
end DiskQueue
