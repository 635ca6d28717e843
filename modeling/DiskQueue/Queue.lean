/-
Module: DiskQueue.Queue
Purpose: A queue of transmissions in a directory.
Trusted boundary: none
Main exports:
  Queue, Queue.openWith, Queue.tryEnqueue, Queue.tryEnqueueRaw, Queue.tryDequeue,
  Queue.enqueue, Queue.enqueueRaw, Queue.dequeue, Queue.setCapacity
-/
import DiskQueue.Candidates
import DiskQueue.Limits
import DiskQueue.Queue.Options

namespace DiskQueue

/-!
A record is written under a temporary name that no other file has, stored, and
then given its final name, by which it becomes visible. To take a record its name
is made temporary again, so that nobody else takes it; then it is read, and the
file is removed.

The queue knows how many bytes of records there are: it counts them when it is
opened, adds to the count after a record has its final name, and subtracts as soon
as a record has lost it. Nothing is written while the count has reached the
capacity; a record that is written may overshoot it.
-/

/-- A queue that has been opened. -/
structure Queue where
  directory : Path
  token : ProcessToken
  sequence : UInt64
  capacityMb : UInt64
  size : UInt64
  candidates : Candidates
  deleteRetry : RetryPolicy
deriving Repr, DecidableEq

namespace Queue

/-! ### Opening -/

/-- The file that is made to find out whether a directory can be written. -/
def writeCheckPath (directory : Path) (token : ProcessToken) : Path :=
  directory.join (Utf8.encode ".write-check-" ++ token.bytes)

/-- Makes a file in a directory and removes it. -/
def checkWritable (directory : Path) (token : ProcessToken) : Program (Except QueueError Unit) := do
  let path := writeCheckPath directory token
  match ← Program.createEmpty path with
  | .error _ => do
    Program.log .warn "spool directory is not writable"
    pure (.error (.directoryNotAccessible directory))
  | .ok () =>
    match ← Program.remove path with
    | .error _ => do
      Program.log .warn "unable to remove write check file"
      pure (.error (.directoryNotAccessible directory))
    | .ok () => pure (.ok ())

/-- Checks that a directory is one and can be listed and written. -/
def checkDirectory (directory : Path) (token : ProcessToken) :
    Program (Except QueueError Unit) := do
  if ← Program.isDirectory directory then
    match ← Program.list directory with
    | .error _ => pure (.error (.directoryNotAccessible directory))
    | .ok _ => checkWritable directory token
  else pure (.error (.directoryNotAccessible directory))

/-- Makes a directory if it is missing, and checks it. -/
def ensureAccessible (directory : Path) (token : ProcessToken) :
    Program (Except QueueError Unit) := do
  match ← Program.ensureDirectories directory with
  | .error _ => do
    Program.log .warn "unable to create spool directory"
    pure (.error (.directoryNotAccessible directory))
  | .ok () => checkDirectory directory token

/-- Opens a queue. Without a directory among the options the fallback is used. -/
def openWith (options : Options) (fallback : Path) (token : ProcessToken) :
    Program (Except QueueError Queue) := do
  let directory := options.directory.getD fallback
  match ← ensureAccessible directory token with
  | .error e => pure (.error e)
  | .ok () => do
    Program.logAny (Limits.storage.chooseReport? options.capacity)
    match ← Stored.totalSize directory FileNames.committed with
    | .error e => pure (.error (.read directory e))
    | .ok size => do
      Program.log .info "opened spool directory"
      pure (.ok {
        directory := directory
        token := token
        sequence := 0
        capacityMb := Limits.storage.choose options.capacity
        size := size
        candidates := Candidates.start options.cacheSize options.refillOrder
        deleteRetry := options.deleteRetry })

/-! ### Capacity -/

/-- The bytes of a megabyte. -/
def bytesPerMegabyte : UInt64 := 1048576

/-- The capacity in bytes. -/
def capacityBytes (queue : Queue) : UInt64 := Saturating.mul queue.capacityMb bytesPerMegabyte

/-- Whether the count has reached the capacity. -/
def isFull (queue : Queue) : Bool := queue.capacityBytes ≤ queue.size

/-- Sets the capacity to the closest allowed number of megabytes. -/
def setCapacity (queue : Queue) (megabytes : Int64) : Program Queue := do
  Program.logAny (Limits.storage.replaced? megabytes)
  Program.log .info "spool capacity updated"
  pure { queue with capacityMb := Limits.storage.closest megabytes }

/-! ### Storing -/

/-- The number of names that are tried for a temporary file. -/
def maxStagingAttempts : Nat := 16

/-- Makes a temporary file under a name that is free. Every attempt takes a new
number and asks for the time again. -/
def createStaging (queue : Queue) : Nat → Program (Except IoError Path × Queue)
  | 0 => pure (.error .alreadyExists, queue)
  | attempts + 1 => do
    let millis ← Program.now
    let path := queue.directory.join (FileNames.staging millis queue.token queue.sequence)
    let after := { queue with sequence := queue.sequence + 1 }
    match ← Program.createNew path with
    | .ok () => pure (.ok path, after)
    | .error e =>
      if e = .alreadyExists ∧ attempts ≠ 0 then do
        Program.log .debug "staging name taken, trying next"
        after.createStaging attempts
      else pure (.error e, after)

/-- Writes a record to a temporary file and waits until it is stored. What has
been written stays there if this fails. -/
def writeSynced (path : Path) (record : Bytes) : Program (Except IoError Unit) := do
  match ← Program.append path record with
  | .error e => pure (.error e)
  | .ok () => Program.sync path

/-- Gives a temporary file its final name. -/
def publish (queue : Queue) (staged : Path) (size : UInt64) :
    Program (Except QueueError Path × Queue) :=
  match FileNames.baseName? staged with
  | none => pure (.error (.staging (.other "staging file has no base name")), queue)
  | some base => do
    let committed := FileNames.committedPath queue.directory base
    match ← Program.rename staged committed with
    | .error e => pure (.error (.commit e), queue)
    | .ok () => do
      Program.log .debug "committed record"
      pure (.ok committed, { queue with size := queue.size + size })

/-- Stores a record. -/
def commitRecord (queue : Queue) (record : Bytes) :
    Program (Except QueueError Path × Queue) := do
  let (created, queue) ← queue.createStaging maxStagingAttempts
  match created with
  | .error e => pure (.error (.staging e), queue)
  | .ok staged =>
    match ← writeSynced staged record with
    | .error e => pure (.error (.staging e), queue)
    | .ok () => queue.publish staged (UInt64.ofNat record.length)

/-- Stores a record unless the queue is full or there is none. -/
def tryStore (queue : Queue) (record : Except IoError Bytes) :
    Program (Except QueueError Path × Queue) :=
  if queue.isFull then pure (.error (.capacityExceeded queue.capacityMb), queue)
  else
    match record with
    | .error e => pure (.error (.staging e), queue)
    | .ok record => queue.commitRecord record

/-- Stores a transmission, and gives the path of its file. -/
def tryEnqueue (queue : Queue) (transmission : Transmission) :
    Program (Except QueueError Path × Queue) :=
  queue.tryStore (Record.encode transmission)

/-- Stores bare bytes, and gives the path of their file. -/
def tryEnqueueRaw (queue : Queue) (content : Bytes) :
    Program (Except QueueError Path × Queue) :=
  queue.tryStore (Record.encodeRaw content)

/-- Reports how an attempt to store ended, and says whether it succeeded. -/
def reportStored : Except QueueError Path × Queue → Program (Bool × Queue)
  | (.ok _, queue) => do
    Program.report .stored
    pure (true, queue)
  | (.error e, queue) => do
    Program.report (.lost e.message)
    pure (false, queue)

/-- Stores a transmission, and says whether it was stored. -/
def enqueue (queue : Queue) (transmission : Transmission) : Program (Bool × Queue) := do
  reportStored (← queue.tryEnqueue transmission)

/-- Stores bare bytes, and says whether they were stored. -/
def enqueueRaw (queue : Queue) (content : Bytes) : Program (Bool × Queue) := do
  reportStored (← queue.tryEnqueueRaw content)

/-! ### Taking -/

/-- Tells of an attempt that failed, and waits before the next one. -/
def beforeNextAttempt (pauseMs : UInt64) : Program Unit := do
  Program.log .debug "attempt failed, retrying"
  if pauseMs = 0 then pure () else Program.pause pauseMs

/-- Removes a file. A file that is gone is fine. -/
def removeOnce (path : Path) : Program (Except IoError Unit) := do
  match ← Program.remove path with
  | .ok () => pure (.ok ())
  | .error e => if e = .notFound then pure (.ok ()) else pure (.error e)

/-- Removes the file of a record that has been read, as often as the policy says. -/
def removeConsumed (queue : Queue) (path : Path) : Program (Except QueueError Unit) := do
  let result ← queue.deleteRetry.run (fun _ _ => beforeNextAttempt queue.deleteRetry.pauseMs)
    fun _ => removeOnce path
  match result with
  | .ok () => pure (.ok ())
  | .error exhausted => pure (.error (.delete path exhausted.attempts exhausted.lastError))

/-- Removes the file of a record that has been read. If that fails the file stays,
and only the log tells of it. -/
def discard (queue : Queue) (path : Path) : Program Unit := do
  match ← queue.removeConsumed path with
  | .ok () => pure ()
  | .error _ => Program.log .warn "unable to delete consumed record"

/-- Reads and removes a record whose name has been made temporary. -/
def finish (queue : Queue) (inFlight : Path) :
    Program (Except QueueError (Option Transmission)) := do
  let decoded ← Stored.readRecord inFlight
  queue.discard inFlight
  Program.log .debug "dequeued record"
  pure (decoded.map some)

/-- Takes the record of a claim. -/
def consume (queue : Queue) (claim : Claim) :
    Program (Except QueueError (Option Transmission) × Queue) := do
  let inFlight := FileNames.temporaryPath queue.directory claim.base
  match ← Program.stat claim.path with
  | .error e => pure (.error (.read claim.path e), queue)
  | .ok found =>
    match ← Program.rename claim.path inFlight with
    | .error e => pure (.error (.read claim.path e), queue)
    | .ok () => do
      let taken ← queue.finish inFlight
      pure (taken, { queue with size := Saturating.sub queue.size (UInt64.ofNat found.size) })

/-- The queue without a claim. -/
def release (queue : Queue) (claim : Claim) : Queue :=
  { queue with candidates := queue.candidates.release claim.base }

/-- Takes the next record. A record that cannot be decoded is removed as well, and
the failure is the answer. -/
def tryDequeue (queue : Queue) : Program (Except QueueError (Option Transmission) × Queue) := do
  let (taken, candidates) ← queue.candidates.take queue.directory
  let queue := { queue with candidates := candidates }
  match taken with
  | .error e => pure (.error (.read queue.directory e), queue)
  | .ok none => pure (.ok none, queue)
  | .ok (some claim) => do
    let (result, queue) ← queue.consume claim
    pure (result, queue.release claim)

/-- Takes the next record, if there is one and it can be read. -/
def dequeue (queue : Queue) : Program (Option Transmission × Queue) := do
  let (result, queue) ← queue.tryDequeue
  match result with
  | .ok found => pure (found, queue)
  | .error _ => do
    Program.log .warn "dequeue failed"
    pure (none, queue)

/-- The text of a queue in messages to programmers. -/
def describe (queue : Queue) : String :=
  "DirectoryStore \x7b dir: " ++ Quoted.quoteBytes queue.directory
    ++ ", token: ProcessToken(" ++ Quoted.quote queue.token.text
    ++ s!"), capacity_mb: {queue.capacityMb}, size: {queue.size}, .. \x7d"

end Queue
end DiskQueue
