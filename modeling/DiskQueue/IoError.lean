/-
Module: DiskQueue.IoError
Purpose: Why an input or output operation failed.
Trusted boundary: none
Main exports:
  IoError, IoError.message
-/
import DiskQueue.IoError.Texts

namespace DiskQueue

/-!
An error comes from the operating system, with its number, or is raised by the program with a text
of its own.
-/

/-- Why an input or output operation failed. -/
inductive IoError where
  | os (number : Int)
  | invalidInput (text : String)
  | invalidData (text : String)
  | other (text : String)
deriving Repr, DecidableEq

namespace IoError

/-- No entry of that name. -/
def notFound : IoError := .os 2

/-- The entry is one that may not be touched. -/
def busy : IoError := .os 16

/-- The entry exists already. -/
def alreadyExists : IoError := .os 17

/-- Something that has to be a directory is none. -/
def notDirectory : IoError := .os 20

/-- Something that may not be a directory is one. -/
def isDirectory : IoError := .os 21

/-- A directory would become part of itself. -/
def invalidArgument : IoError := .os 22

/-- A name has too many bytes. -/
def nameTooLong : IoError := .os 36

/-- A directory that has to be empty is not. -/
def notEmpty : IoError := .os 39

/-- Symbolic links lead to each other without end. -/
def linkLoop : IoError := .os 40

/-- A path holds the byte zero. -/
def nulInPath : IoError := .invalidInput "file name contained an unexpected NUL byte"

/-- A file that has to be text is not. -/
def notText : IoError := .invalidData "stream did not contain valid UTF-8"

/-- The message for an error. -/
def message : IoError → String
  | .os n => s!"{osText n} (os error {n})"
  | .invalidInput text => text
  | .invalidData text => text
  | .other text => text

end IoError
end DiskQueue
