/-
Module: DiskQueue.Queue.Survey
Purpose: Reports on the files of a queue, and removal of leftovers.
Trusted boundary: none
Main exports:
  Status, Queue.status, SweptFile, Queue.sweep
-/
import DiskQueue.Queue

namespace DiskQueue

/-!
The status counts what is in the directory at the moment, beside the count that
the queue keeps.

A sweep removes temporary files that are old enough. It spares files of records
that are being taken, and files that carry the token of the queue, since those are
being written; a file whose base name is no text is spared too.
-/

/-- What is in a queue. -/
structure Status where
  directory : Path
  committedFiles : Nat
  committedBytes : UInt64
  temporaryFiles : Nat
  temporaryBytes : UInt64
  trackedBytes : UInt64
  capacityMb : UInt64
  capacityBytes : UInt64
  claimedFiles : Nat
deriving Repr, DecidableEq

/-- How much of the capacity is used by records, in percent. -/
def Status.usedPercent (status : Status) : Float :=
  if status.capacityBytes = 0 then 0
  else status.committedBytes.toFloat / status.capacityBytes.toFloat * 100

/-- A file that was removed by a sweep. -/
structure SweptFile where
  path : Path
  size : Nat
  ageSeconds : Nat
deriving Repr, DecidableEq

namespace Queue

/-- The number and the bytes of the files with an extension. -/
def survey (directory : Path) (extension : Name) :
    Program (Except IoError (Nat × UInt64)) := do
  match ← Stored.names directory extension with
  | .error e => pure (.error e)
  | .ok names =>
    match ← Stored.totalSize directory extension with
    | .error e => pure (.error e)
    | .ok bytes => pure (.ok (names.length, bytes))

/-- What is in a queue. -/
def status (queue : Queue) : Program (Except QueueError Status) := do
  match ← survey queue.directory FileNames.committed with
  | .error e => pure (.error (.read queue.directory e))
  | .ok (committedFiles, committedBytes) =>
    match ← survey queue.directory FileNames.temporary with
    | .error e => pure (.error (.read queue.directory e))
    | .ok (temporaryFiles, temporaryBytes) =>
      pure (.ok {
        directory := queue.directory
        committedFiles := committedFiles
        committedBytes := committedBytes
        temporaryFiles := temporaryFiles
        temporaryBytes := temporaryBytes
        trackedBytes := queue.size
        capacityMb := queue.capacityMb
        capacityBytes := queue.capacityBytes
        claimedFiles := queue.candidates.claimed.length })

/-- Whether a sweep leaves a name alone however old it is. -/
def spares (queue : Queue) (name : Name) : Bool :=
  match FileNames.baseName? name with
  | none => true
  | some base =>
    queue.candidates.isClaimed base || FileNames.contains (FileNames.mark queue.token) base

/-- Removes a file if it is old enough, and says so. -/
def sweepFile (path : Path) (now : Int) (minAgeMs : Nat) : Program (Option SweptFile) := do
  match ← Program.stat path with
  | .error _ => do
    Program.log .debug "skipping temporary file"
    pure none
  | .ok found =>
    let age := (now - found.modified).toNat
    if age < minAgeMs then pure none
    else
      match ← Program.remove path with
      | .error _ => do
        Program.log .warn "unable to sweep temporary file"
        pure none
      | .ok () => do
        Program.log .info "swept temporary file"
        pure (some ⟨path, found.size, age / 1000⟩)

/-- Removes those of the named files that are old enough, and gives them in turn. -/
def sweepNames (queue : Queue) (now : Int) (minAgeMs : Nat) : List Name → Program (List SweptFile)
  | [] => pure []
  | name :: rest =>
    if queue.spares name then queue.sweepNames now minAgeMs rest
    else do
      let swept ← sweepFile (queue.directory.join name) now minAgeMs
      let others ← queue.sweepNames now minAgeMs rest
      pure (swept.toList ++ others)

/-- Removes temporary files that are old enough. -/
def sweep (queue : Queue) (minAgeMs : Nat) : Program (Except QueueError (List SweptFile)) := do
  match ← Stored.names queue.directory FileNames.temporary with
  | .error e => pure (.error (.read queue.directory e))
  | .ok names => do
    let now ← Program.now
    let swept ← queue.sweepNames now minAgeMs names
    pure (.ok swept)

end Queue
end DiskQueue
