/-
Module: DiskQueue.Limits
Purpose: Numbers that are kept between a least and a greatest value.
Trusted boundary: none
Main exports:
  Limits, Limits.make?, Limits.closest, Limits.choose, Limits.storage
-/
import DiskQueue.Decimal
import DiskQueue.Diagnostics
import DiskQueue.SettingsError
import DiskQueue.Text.Blank

namespace DiskQueue

/-!
A number outside its limits is replaced by the closest limit and not refused. A
text that is no number, or that is blank or absent, stands for the default. Both
are reported, since they change what was asked for.

The limits are words of 64 bits without a sign, the numbers that are asked for
words of 64 bits with one. A least value of `2^63` or more counts as a negative
one when it is compared with them.
-/

/-- A property with the limits and the default of its value. -/
structure Limits where
  name : String
  minimum : UInt64
  maximum : UInt64
  default : UInt64
  minimum_le_default : minimum ≤ default
  default_le_maximum : default ≤ maximum
deriving DecidableEq

namespace Limits

/-- Limits with the default between them. -/
def make? (name : String) (minimum maximum default : UInt64) : Except SettingsError Limits :=
  if maximum < minimum then
    .error (.invalidLimits name s!"minimum {minimum} is above maximum {maximum}")
  else if h : minimum ≤ default ∧ default ≤ maximum then
    .ok ⟨name, minimum, maximum, default, h.1, h.2⟩
  else .error (.invalidLimits name s!"default {default} is outside [{minimum}, {maximum}]")

/-- The value closest to a number. -/
def closest (limits : Limits) (value : Int64) : UInt64 :=
  if value < limits.minimum.toInt64 then limits.minimum
  else if limits.maximum < value.toUInt64 then limits.maximum
  else value.toUInt64

/-- What is reported about a number that has been replaced. -/
def replaced? (limits : Limits) (value : Int64) : Option Event :=
  if (limits.closest value).toInt64 = value then none
  else
    some ⟨.warn, s!"value outside [{limits.minimum}, {limits.maximum}], using closest limit"⟩

/-- What a text asks for. -/
inductive Wish where
  | nothing
  | number (value : Int64)
  | unreadable
deriving Repr, DecidableEq

/-- Reads what a text asks for. Blanks around it do not count. -/
def Wish.read : Option String → Wish
  | none => .nothing
  | some text =>
    match Blank.trim text.toList with
    | [] => .nothing
    | cs =>
      match Decimal.readInt64? cs with
      | some value => .number value
      | none => .unreadable

/-- The value for what is asked for. -/
def grant (limits : Limits) : Wish → UInt64
  | .number value => limits.closest value
  | _ => limits.default

/-- What is reported about what is asked for. -/
def grantReport? (limits : Limits) : Wish → Option Event
  | .nothing => none
  | .number value => limits.replaced? value
  | .unreadable => some ⟨.warn, "unparseable value, using default"⟩

/-- The value for a text. -/
def choose (limits : Limits) (text : Option String) : UInt64 := limits.grant (Wish.read text)

/-- What is reported about a text. -/
def chooseReport? (limits : Limits) (text : Option String) : Option Event :=
  limits.grantReport? (Wish.read text)

/-- The capacity of a queue in megabytes. -/
def storage : Limits :=
  ⟨"Channel.MaxTransmissionStorageCapacityInMB", 1, 1000, 10, by decide, by decide⟩

/-- A value within the limits is kept, and one outside is moved to the closest
limit. -/
example : storage.closest 250 = 250 ∧ storage.closest 5000 = 1000 ∧ storage.closest (-20) = 1 := by
  decide

end Limits
end DiskQueue
