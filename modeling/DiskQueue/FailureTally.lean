/-
Module: DiskQueue.FailureTally
Purpose: Counting what was stored and what was lost, without a message for each loss.
Trusted boundary: none
Main exports:
  Report, FailureTally, FailureTally.record
-/
import DiskQueue.Diagnostics

namespace DiskQueue

/-!
Every attempt to store a transmission is counted. A failure is also announced,
unless another one was announced less than an interval ago; failures that were
not announced are counted until the next announcement. Instants are milliseconds
of a clock that never goes back.
-/

/-- What became of an attempt to store a transmission. -/
inductive Report where
  | stored
  | lost (reason : String)
deriving Repr, DecidableEq

/-- The counts, the interval between announcements, and the instant of the last
announcement. -/
structure FailureTally where
  intervalMs : Nat
  successes : UInt64
  failures : UInt64
  suppressed : UInt64
  lastAnnounced : Option Nat
deriving Repr, DecidableEq

namespace FailureTally

/-- Nothing counted yet. -/
def start (intervalMs : Nat) : FailureTally := ⟨intervalMs, 0, 0, 0, none⟩

/-- An interval of five minutes. -/
def defaultIntervalMs : Nat := 300000

/-- Whether a failure at an instant is announced. -/
def isDue (tally : FailureTally) (now : Nat) : Bool :=
  match tally.lastAnnounced with
  | none => true
  | some last => tally.intervalMs ≤ now - last

/-- The announcement of a failure. A log shows beside its message how many failures were
held back before it. That is no part of the event: it is the number of suppressed failures
in the tally that meets the failure. -/
def announcement (reason : String) : Event :=
  ⟨.warn, "Unable to store telemetry to disk (telemetry will be discarded): " ++ reason⟩

/-- Counts a report, and says what is announced. -/
def record (tally : FailureTally) (now : Nat) : Report → FailureTally × Option Event
  | .stored => ({ tally with successes := tally.successes + 1 }, none)
  | .lost reason =>
    if tally.isDue now then
      ({ tally with
          failures := tally.failures + 1, suppressed := 0, lastAnnounced := some now },
        some (announcement reason))
    else
      ({ tally with failures := tally.failures + 1, suppressed := tally.suppressed + 1 }, none)

end FailureTally
end DiskQueue
