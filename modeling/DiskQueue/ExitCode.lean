/-
Module: DiskQueue.ExitCode
Purpose: How a run of the command line ended.
Trusted boundary: none
Main exports:
  ExitCode, ExitCode.number, ExitCode.name, ExitCode.ofError
-/
import DiskQueue.QueueError

namespace DiskQueue

/-!
Numbers below ten are outcomes of the work, those from ten on are mistakes of the
user or of the surroundings, and those from twenty on are failures of the program
or of its files.
-/

/-- How a run ended. -/
inductive ExitCode where
  | clean
  | nothingToDo
  | capacityExceeded
  | partialFailure
  | badArguments
  | badConfiguration
  | internalError
  | ioFailure
deriving Repr, DecidableEq

namespace ExitCode

/-- The number that the process ends with. -/
def number : ExitCode → Nat
  | .clean => 0
  | .nothingToDo => 1
  | .capacityExceeded => 2
  | .partialFailure => 3
  | .badArguments => 10
  | .badConfiguration => 11
  | .internalError => 20
  | .ioFailure => 21

/-- The word for an exit code in documents. -/
def name : ExitCode → String
  | .clean => "OK_CLEAN"
  | .nothingToDo => "OK_NOTHING"
  | .capacityExceeded => "ERR_CAPACITY"
  | .partialFailure => "ERR_PARTIAL"
  | .badArguments => "ERR_ARGS"
  | .badConfiguration => "ERR_CONFIG"
  | .internalError => "ERR_INTERNAL"
  | .ioFailure => "ERR_IO"

/-- Runs in which nothing went wrong. -/
def isSuccess (code : ExitCode) : Bool := code = .clean || code = .nothingToDo

/-- Runs that were no outcome of the work. -/
def isError (code : ExitCode) : Bool := 10 ≤ code.number

/-- The word and the number. -/
def describe (code : ExitCode) : String := s!"{code.name} ({code.number})"

/-- The exit code for a failure that ended a command. -/
def ofError (error : QueueError) : ExitCode :=
  match error.category with
  | .config => .badConfiguration
  | .capacity => .capacityExceeded
  | .write => .ioFailure
  | .read => .ioFailure
  | .cleanup => .ioFailure
  | .decode => .partialFailure

end ExitCode
end DiskQueue
