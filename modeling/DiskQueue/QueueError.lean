/-
Module: DiskQueue.QueueError
Purpose: Why an operation of the queue failed.
Trusted boundary: none
Main exports:
  QueueError, QueueError.code, QueueError.category, QueueError.isRecoverable,
  QueueError.message
-/
import DiskQueue.IoError
import DiskQueue.Path
import DiskQueue.Record

namespace DiskQueue

/-!
Every failure has a number that does not change between releases, a category in
whose range of ten the number lies, and a message. Whether a failure may go
away by itself depends on its kind only.
-/

/-- The stages of the work in which a failure can arise. -/
inductive Category where
  | config
  | capacity
  | write
  | read
  | decode
  | cleanup
deriving Repr, DecidableEq

namespace Category

/-- All categories, in the order of their numbers. -/
def all : List Category := [.config, .capacity, .write, .read, .decode, .cleanup]

/-- The word for a category. -/
def name : Category → String
  | .config => "config"
  | .capacity => "capacity"
  | .write => "write"
  | .read => "read"
  | .decode => "decode"
  | .cleanup => "cleanup"

/-- The category with a given word. -/
def ofName? (word : String) : Option Category := all.find? fun category => category.name == word

end Category

/-- Why an operation failed. -/
inductive QueueError where
  | config (text : String)
  | directoryNotAccessible (path : Path)
  | capacityExceeded (megabytes : UInt64)
  | staging (cause : IoError)
  | commit (cause : IoError)
  | read (path : Path) (cause : IoError)
  | decodeRejected (tag : String)
  | decodeCorrupt (text : String)
  | delete (path : Path) (attempts : UInt32) (cause : IoError)
deriving Repr, DecidableEq

namespace QueueError

/-- The failure for a record that could not be decoded. -/
def ofDecodeError : Record.DecodeError → QueueError
  | .rejected tag => .decodeRejected tag
  | .corrupt cause => .decodeCorrupt cause.message

/-- The number of a failure. -/
def code : QueueError → Nat
  | .config _ => 10
  | .directoryNotAccessible _ => 11
  | .capacityExceeded _ => 20
  | .staging _ => 30
  | .commit _ => 31
  | .read _ _ => 40
  | .decodeRejected _ => 50
  | .decodeCorrupt _ => 51
  | .delete _ _ _ => 60

/-- The category of a failure. -/
def category : QueueError → Category
  | .config _ => .config
  | .directoryNotAccessible _ => .config
  | .capacityExceeded _ => .capacity
  | .staging _ => .write
  | .commit _ => .write
  | .read _ _ => .read
  | .decodeRejected _ => .decode
  | .decodeCorrupt _ => .decode
  | .delete _ _ _ => .cleanup

/-- Whether the same operation may succeed later. A wrong setting stays wrong,
and the bytes of a record do not change. -/
def isRecoverable : QueueError → Bool
  | .config _ => false
  | .directoryNotAccessible _ => false
  | .capacityExceeded _ => true
  | .staging _ => true
  | .commit _ => true
  | .read _ _ => true
  | .decodeRejected _ => false
  | .decodeCorrupt _ => false
  | .delete _ _ _ => true

/-- The message for a failure. Bytes of a path that are not text are replaced. -/
def message : QueueError → String
  | .config text => s!"configuration error: {text}"
  | .directoryNotAccessible path =>
    let directory := Utf8.lossy path
    s!"directory {directory} must exist with read and write permissions"
  | .capacityExceeded megabytes => s!"local storage capacity ({megabytes}MB) has been exceeded"
  | .staging cause => s!"unable to create or write staging file: {cause.message}"
  | .commit cause => s!"unable to rename file to permanent name: {cause.message}"
  | .read path cause =>
    let file := Utf8.lossy path
    s!"unable to read record {file}: {cause.message}"
  | .decodeRejected tag => s!"record type '" ++ tag ++ "' is not allowed"
  | .decodeCorrupt text => s!"record is corrupt: {text}"
  | .delete path attempts cause =>
    let file := Utf8.lossy path
    s!"unable to delete {file} after {attempts} attempts: {cause.message}"

end QueueError
end DiskQueue
