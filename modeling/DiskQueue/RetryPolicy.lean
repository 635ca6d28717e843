/-
Module: DiskQueue.RetryPolicy
Purpose: Doing again what may fail for a moment.
Trusted boundary: none
Main exports:
  RetryPolicy, RetryPolicy.limited, RetryPolicy.run, Exhausted
-/

namespace DiskQueue

/-!
An operation is tried until it succeeds, but only so many times. It is told the
number of the attempt, counted from one. There is always a first attempt, also
under a policy that asks for none, and there is no pause after the last one.
-/

/-- How often an operation is tried, and the pause between two attempts. -/
structure RetryPolicy where
  attempts : UInt32
  pauseMs : UInt64
deriving Repr, DecidableEq

/-- The last failure of an operation that was tried as often as allowed. -/
structure Exhausted (ε : Type) where
  attempts : UInt32
  lastError : ε
deriving Repr, DecidableEq

namespace RetryPolicy

/-- A policy with at least one attempt. -/
def limited (attempts : UInt32) (pauseMs : UInt64) : RetryPolicy := ⟨max attempts 1, pauseMs⟩

/-- A policy without pauses. -/
def immediate (attempts : UInt32) : RetryPolicy := limited attempts 0

/-- Two attempts with a tenth of a second between them. -/
def default : RetryPolicy := ⟨2, 100⟩

/-- The number of attempts that are made at most. -/
def limit (policy : RetryPolicy) : Nat := max policy.attempts.toNat 1

/-- Makes attempt `number` and, while it fails, `more` further ones. Before each
further one it does what comes between two attempts. -/
def runFrom {m : Type → Type} [Monad m] {ε α : Type} (between : UInt32 → ε → m Unit)
    (operation : UInt32 → m (Except ε α)) :
    Nat → UInt32 → m (Except (Exhausted ε) α)
  | 0, number => do
    match ← operation number with
    | .ok value => pure (.ok value)
    | .error e => pure (.error ⟨number, e⟩)
  | more + 1, number => do
    match ← operation number with
    | .ok value => pure (.ok value)
    | .error e => do
      between number e
      runFrom between operation more (number + 1)

/-- Tries an operation under a policy. -/
def run {m : Type → Type} [Monad m] {ε α : Type} (policy : RetryPolicy)
    (between : UInt32 → ε → m Unit) (operation : UInt32 → m (Except ε α)) :
    m (Except (Exhausted ε) α) :=
  runFrom between operation (policy.limit - 1) 1

end RetryPolicy
end DiskQueue
