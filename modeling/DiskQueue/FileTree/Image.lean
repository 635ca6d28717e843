/-
Module: DiskQueue.FileTree.Image
Purpose: A tree of files as one string of bytes.
Trusted boundary: none
Main exports:
  FileTree.image, FileTree.ofImage?
-/
import DiskQueue.Decimal
import DiskQueue.FileTree

namespace DiskQueue.FileTree

/-!
An image is a sequence of fields. A field is the number of its bytes, a colon and
the bytes. Each entry begins with a letter for its kind and the path from the
root; a file goes on with its time and its content, a link with its target.
-/

/-- The byte between the length of a field and the field. -/
def colon : UInt8 := 0x3A

/-- A field. -/
def field (content : Bytes) : Bytes := Decimal.digits content.length ++ colon :: content

/-- An entry as its fields. -/
def entryFields (key : Key) : Node → List Bytes
  | .directory => [Utf8.encode "d", Path.ofNames key]
  | .file content modified =>
    [Utf8.encode "f", Path.ofNames key, Decimal.ofInt modified, content]
  | .link target => [Utf8.encode "l", Path.ofNames key, target]

/-- The entries of a row and below it, each under the names that lead to it from a
place, the names of the place with the last one first. -/
def rowEntries (up : List Name) : Forest Node → List (Key × Node)
  | .nil => []
  | .cons name value below next =>
    value.toList.map (((name :: up).reverse, ·)) ++ rowEntries (name :: up) below
      ++ rowEntries up next

/-- The entries of a tree, each one before those below it. -/
def entries (tree : FileTree) : List (Key × Node) := rowEntries [] tree.forest

/-- A tree as bytes. -/
def image (tree : FileTree) : Bytes :=
  tree.entries.flatMap fun entry => (entryFields entry.1 entry.2).flatMap field

/-- Reads the length of a field, and what follows the colon. -/
def readLength (n : Nat) : Bytes → Option (Nat × Bytes)
  | [] => none
  | b :: rest =>
    if b = colon then some (n, rest)
    else if Decimal.isDigit b then readLength (10 * n + Decimal.digitValue b) rest
    else none

/-- Reads fields to the end. Each one takes at least one byte, so the length of the
text is fuel enough. -/
def readFields : Nat → Bytes → Option (List Bytes)
  | _, [] => some []
  | 0, _ => none
  | fuel + 1, s =>
    match readLength 0 s with
    | none => none
    | some (n, rest) =>
      if (rest.take n).length < n then none
      else (readFields fuel (rest.drop n)).map (rest.take n :: ·)

/-- The names in a path from the root. -/
def keyOf (path : Path) : Key := path.pieces.filter fun piece => piece ≠ []

/-- The tree with the entries of the given fields. -/
def insertFields (tree : FileTree) : List Bytes → Option FileTree
  | [] => some tree
  | [102] :: path :: modified :: content :: rest =>
    match Utf8.decode? modified with
    | none => none
    | some text =>
      match Decimal.readInt? (Nat.pow 10 text.length) text.toList with
      | none => none
      | some time => insertFields (tree.insert (keyOf path) (.file content time)) rest
  | [100] :: path :: rest => insertFields (tree.insert (keyOf path) .directory) rest
  | [108] :: path :: target :: rest => insertFields (tree.insert (keyOf path) (.link target)) rest
  | _ => none

/-- The tree in an image. -/
def ofImage? (content : Bytes) : Option FileTree :=
  (readFields content.length content).bind (insertFields empty)

/-- The tree with a directory and the ones above it. -/
def withDirectory (tree : FileTree) (key : Key) : FileTree :=
  (List.range key.length).foldl
    (fun tree i => if (tree.lookup (key.take (i + 1))).isSome then tree
      else tree.insert (key.take (i + 1)) .directory) tree

/-- The place of a file with a given path, seen from a directory. -/
def placeOf (current : Key) (path : Path) : Key :=
  if path.isAbsolute then path.names else current ++ path.names

/-- The tree with a file, and with the directories above it. -/
def withFile (tree : FileTree) (current : Key) (path : Path) (content : Bytes) (now : Int) :
    FileTree :=
  let key := placeOf current path
  (tree.withDirectory key.dropLast).insert key (.file content now)

/-- The files in a directory with their contents. -/
def filesIn (tree : FileTree) (directory : Key) : List (Name × Bytes) :=
  (tree.children directory).filterMap fun child =>
    match child.2 with
    | .file content _ => some (child.1, content)
    | _ => none

/-- A tree is read back from its image. -/
example :
    let tree := (empty.insert [Utf8.encode "a"] .directory).insert [Utf8.encode "a", Utf8.encode "b"]
      (.file (Utf8.encode "1:2") (-7))
    (ofImage? tree.image).map forest = some tree.forest := by
  decide +kernel

end DiskQueue.FileTree
