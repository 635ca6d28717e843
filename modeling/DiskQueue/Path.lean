/-
Module: DiskQueue.Path
Purpose: Paths as byte strings, and the names in them.
Trusted boundary: none
Main exports:
  Name, Path, Path.pieces, Path.names, Path.fileName?, Path.stem?, Path.extension?,
  Path.join, Path.parent?
-/
import DiskQueue.Text.Utf8

namespace DiskQueue

/-!
A path is a string of bytes in which slashes separate names.

* Empty names and single dots are passed over, so `a//b/.` ends in `b`.
* A path whose last name is `..`, and one without names, has no file name.
* The extension is what follows the last dot of a file name. A dot in front
  of a name does not separate an extension: `.trn` is a stem.
* Joining an absolute path to another one replaces it.
-/

/-- A name of a directory entry. -/
abbrev Name := Bytes

/-- Names with slashes between them. -/
abbrev Path := Bytes

namespace Path

/-- The byte between two names. -/
def slash : UInt8 := 0x2F

/-- The byte before an extension. -/
def dot : UInt8 := 0x2E

/-- The pieces of a path between its slashes, empty ones too. -/
def pieces : Path → List Name
  | [] => [[]]
  | b :: rest =>
    if b = slash then [] :: pieces rest
    else
      match pieces rest with
      | [] => [[b]]
      | piece :: more => (b :: piece) :: more

/-- Whether a path starts at the root. -/
def isAbsolute (path : Path) : Bool := path.head? == some slash

/-- The names of a path: what is left without empty pieces and single dots. -/
def names (path : Path) : List Name := (pieces path).filter fun piece => piece ≠ [] ∧ piece ≠ [dot]

/-- The last name of a path, unless it leads to the parent. -/
def fileName? (path : Path) : Option Name :=
  (names path).getLast?.filter fun name => name ≠ [dot, dot]

/-- The parts of a name before and after its last dot. -/
def splitAtLastDot (name : Name) : Option (Name × Name) :=
  match name with
  | [] => none
  | b :: rest =>
    match splitAtLastDot rest with
    | some (before, after) => some (b :: before, after)
    | none => if b = dot then some ([], rest) else none

/-- The parts of a name before and after the dot of its extension. -/
def splitExtension (name : Name) : Name × Option Name :=
  match splitAtLastDot name with
  | some (b :: before, after) => (b :: before, some after)
  | _ => (name, none)

/-- The file name of a path without its extension. -/
def stem? (path : Path) : Option Name := (fileName? path).map fun name => (splitExtension name).1

/-- The extension of the file name of a path. -/
def extension? (path : Path) : Option Name :=
  (fileName? path).bind fun name => (splitExtension name).2

/-- The path of an entry of a directory. -/
def join (directory entry : Path) : Path :=
  if isAbsolute entry then entry
  else if directory = [] ∨ directory.getLast? = some slash then directory ++ entry
  else directory ++ slash :: entry

/-- Names with slashes between them. -/
def ofNames : List Name → Path
  | [] => []
  | [name] => name
  | name :: next :: more => name ++ slash :: ofNames (next :: more)

/-- What stands before the names of a path: a slash if it starts at the root. -/
def top (path : Path) : Path := if isAbsolute path then [slash] else []

/-- The path of names that stand with the last one first. -/
def ofReversed (top : Path) (names : List Name) : Path := top ++ ofNames names.reverse

/-- The path of the directory above, if a path has names. -/
def parent? (path : Path) : Option Path :=
  match (names path).reverse with
  | [] => none
  | _ :: above => some (ofReversed (top path) above)

/-- Slashes and dots at the end do not change the file name. -/
example : fileName? (Utf8.encode "/spool/a.trn/./") = some (Utf8.encode "a.trn") := by
  decide +kernel

/-- A dot in front of a name does not separate an extension. -/
example : stem? (Utf8.encode ".trn") = some (Utf8.encode ".trn")
    ∧ extension? (Utf8.encode ".trn") = none := by
  decide +kernel

/-- The directory above is what is left without the last name. -/
example : parent? (Utf8.encode "/a/./b/c/") = some (Utf8.encode "/a/b")
    ∧ parent? (Utf8.encode "a") = some [] ∧ parent? (Utf8.encode "/.") = none := by
  decide +kernel

/-- An absolute entry replaces the directory. -/
example : join (Utf8.encode "a") (Utf8.encode "/b") = Utf8.encode "/b" := by decide +kernel

end Path
end DiskQueue
