/-
Module: DiskQueue.Stored
Purpose: Looking at the files of a queue.
Trusted boundary: none
Main exports:
  Stored.names, Stored.totalSize, Stored.readRecord
-/
import DiskQueue.FileNames
import DiskQueue.Host
import DiskQueue.QueueError
import DiskQueue.Saturating

namespace DiskQueue.Stored

/-!
Only files count: a directory or a link with a fitting name is passed over. A
file that is gone before its size is asked for counts as empty.
-/

/-- The names of the files with an extension among the entries of a directory. -/
def select (extension : Name) (entries : List (Name × EntryKind)) : List Name :=
  (entries.filter fun entry =>
    FileNames.hasExtension entry.1 extension && entry.2 = .file).map Prod.fst

/-- The names of the files with an extension in a directory, in any order. -/
def names (directory : Path) (extension : Name) : Program (Except IoError (List Name)) := do
  match ← Program.list directory with
  | .error e => pure (.error e)
  | .ok entries => pure (.ok (select extension entries))

/-- The paths of the files with an extension in a directory, in any order. -/
def paths (directory : Path) (extension : Name) : Program (Except IoError (List Path)) := do
  match ← names directory extension with
  | .error e => pure (.error e)
  | .ok found => pure (.ok (found.map directory.join))

/-- The sizes of files, added to a sum. -/
def addSizes (sum : UInt64) : List Path → Program UInt64
  | [] => pure sum
  | path :: rest => do
    match ← Program.stat path with
    | .error _ => addSizes sum rest
    | .ok found => addSizes (Saturating.add sum (UInt64.ofNat found.size)) rest

/-- The bytes of all files with an extension in a directory. -/
def totalSize (directory : Path) (extension : Name) : Program (Except IoError UInt64) := do
  match ← paths directory extension with
  | .error e => pure (.error e)
  | .ok found => do
    let sum ← addSizes 0 found
    pure (.ok sum)

/-- The transmission in a file. -/
def readRecord (path : Path) : Program (Except QueueError Transmission) := do
  match ← Program.read path with
  | .error e => pure (.error (.read path e))
  | .ok content =>
    match Record.decode content with
    | .error e => pure (.error (.ofDecodeError e))
    | .ok transmission => pure (.ok transmission)

end DiskQueue.Stored
