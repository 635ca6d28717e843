/-
Module: DiskQueue.Candidates
Purpose: Which record is taken next, and which ones are being taken.
Trusted boundary: none
Main exports:
  Claim, Candidates, Candidates.take, Candidates.release, Candidates.batchOf
-/
import DiskQueue.RefillOrder
import DiskQueue.Stored

namespace DiskQueue

/-!
A directory is not listed for every record. The names found are kept as a batch
and handed out one by one, the least one first; the directory is listed again
when the batch is empty. What happens to the files in the meantime is found out
when they are used.

A name that is handed out is claimed until it is released. A name that is
already claimed, or that is no text, is handed out to nobody and leaves the batch.
-/

/-- A record that is being taken. -/
structure Claim where
  path : Path
  base : Name
deriving Repr, DecidableEq

/-- A batch of paths, the next one first, and the base names that are claimed. -/
structure Candidates where
  limit : Nat
  order : RefillOrder
  batch : List Path
  claimed : List Name
deriving Repr, DecidableEq

namespace Candidates

/-- No batch and no claims. A batch holds at least one name. -/
def start (size : UInt64) (order : RefillOrder) : Candidates := ⟨max size.toNat 1, order, [], []⟩

/-- Whether a path comes before another one or is the same. -/
def atMost (a b : Path) : Bool := decide (a ≤ b)

/-- Paths in ascending order. -/
def sorted (paths : List Path) : List Path := paths.mergeSort atMost

/-- The paths that a batch keeps, in ascending order. -/
def batchOf (limit : Nat) (order : RefillOrder) (paths : List Path) : List Path :=
  match order with
  | .highestNames => (sorted paths).drop (paths.length - limit)
  | .lowestNames => (sorted paths).take limit

/-- Whether a base name is claimed. -/
def isClaimed (candidates : Candidates) (base : Name) : Bool := candidates.claimed.contains base

/-- Gives a claimed base name back. -/
def release (candidates : Candidates) (base : Name) : Candidates :=
  { candidates with claimed := candidates.claimed.filter fun other => other ≠ base }

/-- Sorting paths changes their order alone. -/
@[simp] theorem mem_sorted {path : Path} {paths : List Path} : path ∈ sorted paths ↔ path ∈ paths :=
  List.mem_mergeSort

/-- A batch keeps only paths that were found. -/
theorem mem_of_mem_batchOf {limit : Nat} {order : RefillOrder} {paths : List Path} {path : Path}
    (h : path ∈ batchOf limit order paths) : path ∈ paths := by
  cases order with
  | highestNames => exact mem_sorted.mp (List.mem_of_mem_drop h)
  | lowestNames => exact mem_sorted.mp (List.mem_of_mem_take h)

/-- A batch keeps no more paths than its limit. -/
theorem length_batchOf (limit : Nat) (order : RefillOrder) (paths : List Path) :
    (batchOf limit order paths).length = min limit paths.length := by
  cases order with
  | highestNames =>
    simp only [batchOf, sorted, List.length_drop, List.length_mergeSort]
    omega
  | lowestNames => simp [batchOf, sorted]

/-- Giving a name back frees that name and no other. -/
theorem isClaimed_release (candidates : Candidates) (base other : Name) :
    (candidates.release base).isClaimed other
      = (decide (other ≠ base) && candidates.isClaimed other) := by
  by_cases h : other = base <;> simp [release, isClaimed, h]

/-- Claims the first name of the batch. -/
def pop (candidates : Candidates) : Program (Option Claim × Candidates) :=
  match candidates.batch with
  | [] => pure (none, candidates)
  | path :: rest =>
    let after := { candidates with batch := rest }
    match FileNames.baseName? path with
    | none => pure (none, after)
    | some base =>
      if candidates.isClaimed base then do
        Program.log .debug "candidate already claimed"
        pure (none, after)
      else pure (some ⟨path, base⟩, { after with claimed := base :: after.claimed })

/-- Lists a directory for a new batch. -/
def refill (candidates : Candidates) (directory : Path) :
    Program (Except IoError Candidates) := do
  match ← Stored.paths directory FileNames.committed with
  | .error e => pure (.error e)
  | .ok paths => do
    Program.log .debug "refilled candidate cache"
    pure (.ok { candidates with batch := batchOf candidates.limit candidates.order paths })

/-- Claims the next record of a directory, if there is one. -/
def take (candidates : Candidates) (directory : Path) :
    Program (Except IoError (Option Claim) × Candidates) :=
  if candidates.batch = [] then do
    match ← candidates.refill directory with
    | .error e => pure (.error e, candidates)
    | .ok refilled => do
      let (claim, after) ← refilled.pop
      pure (.ok claim, after)
  else do
    let (claim, after) ← candidates.pop
    pure (.ok claim, after)

end Candidates
end DiskQueue
