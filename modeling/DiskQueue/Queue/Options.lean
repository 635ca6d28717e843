/-
Module: DiskQueue.Queue.Options
Purpose: What a queue is opened with.
Trusted boundary: none
Main exports:
  Queue.Options, Queue.Options.default, Queue.Options.ofSettings,
  Queue.Options.withCapacity
-/
import DiskQueue.RetryPolicy
import DiskQueue.Settings

namespace DiskQueue.Queue

/-!
Options are settings that have not to make sense: a batch size of zero counts as
one, and so does a number of delete attempts of zero.
-/

/-- What a queue is opened with. The capacity is a text that is read when the
queue is opened. -/
structure Options where
  directory : Option Path
  capacity : Option String
  cacheSize : UInt64
  refillOrder : RefillOrder
  deleteRetry : RetryPolicy
deriving Repr, DecidableEq

namespace Options

/-- What is used where nothing is chosen. -/
def default : Options where
  directory := none
  capacity := none
  cacheSize := Settings.default.cacheSize
  refillOrder := Settings.default.refillOrder
  deleteRetry := RetryPolicy.default

/-- The options that settings ask for. -/
def ofSettings (settings : Settings) : Options where
  directory := settings.directory
  capacity := settings.capacityText
  cacheSize := settings.cacheSize
  refillOrder := settings.refillOrder
  deleteRetry := RetryPolicy.limited settings.deleteAttempts settings.deleteBackoffMs

/-- Options with a capacity of so many megabytes. -/
def withCapacity (options : Options) (megabytes : Int64) : Options :=
  { options with capacity := some (Capacity.megabytes megabytes).asText }

end Options
end DiskQueue.Queue
