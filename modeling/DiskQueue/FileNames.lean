/-
Module: DiskQueue.FileNames
Purpose: How the files of a queue are named.
Trusted boundary: none
Main exports:
  FileNames.staging, FileNames.baseName?, FileNames.committedPath,
  FileNames.temporaryPath, FileNames.hasExtension
-/
import DiskQueue.Decimal
import DiskQueue.Path
import DiskQueue.ProcessToken

namespace DiskQueue.FileNames

/-!
All files of a queue lie in one directory. The extension of a file tells its
state: `trn` for a record that can be taken, `tmp` for one that is being written
or read. What stands before the extension is the base name and stays the same.

A base name is made of the time in milliseconds, the token of the process and a
number that the process counts up. The first and the last are padded with zeros,
so names sort by time and then by number.
-/

/-- The extension of records that can be taken. -/
def committed : Name := Utf8.encode "trn"

/-- The extension of files that are being written or read. -/
def temporary : Name := Utf8.encode "tmp"

/-- A hyphen. -/
def hyphen : UInt8 := 0x2D

/-- The base name for a time, a token and a number. -/
def generated (millis : Int) (token : ProcessToken) (sequence : UInt64) : Name :=
  Utf8.encode "Transmission" ++ hyphen :: Decimal.padded 13 millis
    ++ hyphen :: token.bytes ++ hyphen :: Decimal.padded 6 sequence.toNat

/-- A base name with an extension. -/
def withExtension (base extension : Name) : Name := base ++ Path.dot :: extension

/-- The name under which a record is written. -/
def staging (millis : Int) (token : ProcessToken) (sequence : UInt64) : Name :=
  withExtension (generated millis token sequence) temporary

/-- The base name of a path, if it is text. -/
def baseName? (path : Path) : Option Name := path.stem?.filter Utf8.isText

/-- The path of a record that can be taken. -/
def committedPath (directory : Path) (base : Name) : Path :=
  directory.join (withExtension base committed)

/-- The path of a record that is being written or read. -/
def temporaryPath (directory : Path) (base : Name) : Path :=
  directory.join (withExtension base temporary)

/-- Whether the file name of a path has an extension. -/
def hasExtension (path : Path) (extension : Name) : Bool := path.extension? = some extension

/-- The part of a base name that tells whose file it is. -/
def mark (token : ProcessToken) : Name := hyphen :: token.bytes ++ [hyphen]

/-- Whether a run of bytes occurs in a name. -/
def contains (part : Name) : Name → Bool
  | [] => part.isEmpty
  | b :: rest => part.isPrefixOf (b :: rest) || contains part rest

/-- Time and number are padded with zeros. -/
example : staging 1700000000123 ⟨"abcdefgh"⟩ 7
    = Utf8.encode "Transmission-1700000000123-abcdefgh-000007.tmp" := by
  decide +kernel

end DiskQueue.FileNames
