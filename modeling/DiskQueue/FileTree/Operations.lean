/-
Module: DiskQueue.FileTree.Operations
Purpose: The operations on files that a queue is built from.
Trusted boundary: none
Main exports:
  Stat, FileOp, FileOp.Result, FileTree.perform
-/
import DiskQueue.FileTree.Walk

namespace DiskQueue

/-!
Each operation either takes effect as a whole or fails and leaves the tree as it
is.

* Making a directory, making a new file, renaming and removing act on the entry
  that a path names, also if it is a link; the other operations follow it.
* A new file is only made where nothing stands. An emptied file is made if it is
  missing.
* A file renamed onto a file or a link takes its place; onto a directory it is
  refused. A directory is only renamed onto an empty directory. Nothing is renamed
  into itself or onto a directory that it is in.
* A path that ends in dots names no entry that could be made, renamed or removed.
-/

/-- What is known about an entry. -/
structure Stat where
  kind : EntryKind
  size : Nat
  modified : Int
deriving Repr, DecidableEq

/-- An operation on files. -/
inductive FileOp where
  | makeDirectory (path : Path)
  | list (path : Path)
  | stat (path : Path)
  | createNew (path : Path)
  | createEmpty (path : Path)
  | append (path : Path) (content : Bytes)
  | sync (path : Path)
  | rename (source target : Path)
  | read (path : Path)
  | remove (path : Path)
deriving Repr, DecidableEq

/-- What an operation answers when it succeeds. -/
def FileOp.Result : FileOp → Type
  | .list _ => List (Name × EntryKind)
  | .stat _ => Stat
  | .read _ => Bytes
  | .makeDirectory _ => Unit
  | .createNew _ => Unit
  | .createEmpty _ => Unit
  | .append _ _ => Unit
  | .sync _ => Unit
  | .rename _ _ => Unit
  | .remove _ => Unit

namespace FileTree

/-- The size of a directory: a fixed number of bytes for it, for the one above it
and for every entry. -/
def directorySize (entries : Nat) : Nat := 20 * (2 + entries)

/-- What is known about an entry that is there. -/
def statOf (tree : FileTree) (key : Key) : Node → Stat
  | .directory => ⟨.directory, directorySize (tree.children key).length, 0⟩
  | .file content modified => ⟨.file, content.length, modified⟩
  | .link target => ⟨.link, target.length, 0⟩

/-- The tree with an entry where nothing stands. -/
def addEntry (tree : FileTree) (directory : Key) (name : Name) (node : Node) :
    Except IoError FileTree :=
  match entryAt tree directory name with
  | .error e => .error e
  | .ok (some _) => .error .alreadyExists
  | .ok none => .ok (tree.insert (directory ++ [name]) node)

/-- What was added stands under its name, and all else is as it was. -/
theorem lookup_addEntry {tree after : FileTree} {directory : Key} {name : Name} {node : Node}
    (h : addEntry tree directory name node = .ok after) {other : Key} (ho : other ≠ []) :
    after.lookup other
      = if other = directory ++ [name] then some node else tree.lookup other := by
  unfold addEntry at h
  split at h
  · cases h
  · cases h
  · cases h
    exact lookup_insert tree _ _ ho

/-- Makes a directory where nothing stands. -/
def makeDirectory (tree : FileTree) (current : Key) (path : Path) : Except IoError FileTree :=
  match place tree current path with
  | .error e => .error e
  | .ok ⟨_, none, _⟩ => .error .alreadyExists
  | .ok ⟨directory, some name, _⟩ => addEntry tree directory name .directory

/-- Makes a link where nothing stands. A slash behind its name is refused. -/
def makeLink (tree : FileTree) (current : Key) (target path : Path) : Except IoError FileTree :=
  match refusal? target with
  | some e => .error e
  | none =>
    match place tree current path with
    | .error e => .error e
    | .ok ⟨_, none, _⟩ => .error .alreadyExists
    | .ok ⟨directory, some name, slashed⟩ =>
      match addEntry tree directory name (.link target) with
      | .error e => .error e
      | .ok after => if slashed then .error .notFound else .ok after

/-- The names and kinds of the entries of a directory. -/
def list (tree : FileTree) (current : Key) (path : Path) :
    Except IoError (List (Name × EntryKind)) :=
  match locate tree current path with
  | .error e => .error e
  | .ok (key, .directory) => .ok ((tree.children key).map fun child => (child.1, child.2.kind))
  | .ok _ => .error .notDirectory

/-- What is known about the entry that a path leads to. -/
def stat (tree : FileTree) (current : Key) (path : Path) : Except IoError Stat :=
  match locate tree current path with
  | .error e => .error e
  | .ok (key, node) => .ok (tree.statOf key node)

/-- Makes an empty file where nothing stands. -/
def createNew (tree : FileTree) (current : Key) (now : Int) (path : Path) :
    Except IoError FileTree :=
  match place tree current path with
  | .error e => .error e
  | .ok ⟨_, none, _⟩ => .error .alreadyExists
  | .ok ⟨directory, some name, slashed⟩ =>
    if slashed then .error .isDirectory else addEntry tree directory name (.file [] now)

/-- Empties a file, or makes an empty one. -/
def createEmpty (tree : FileTree) (current : Key) (now : Int) (path : Path) :
    Except IoError FileTree :=
  match find tree current .making path with
  | .error e => .error e
  | .ok (.present key (.file _ _)) => .ok (tree.insert key (.file [] now))
  | .ok (.present _ _) => .error .isDirectory
  | .ok (.absent key name) => .ok (tree.insert (key ++ [name]) (.file [] now))

/-- Puts bytes at the end of a file. -/
def append (tree : FileTree) (current : Key) (now : Int) (path : Path) (content : Bytes) :
    Except IoError FileTree :=
  match locate tree current path with
  | .error e => .error e
  | .ok (key, .file before _) => .ok (tree.insert key (.file (before ++ content) now))
  | .ok _ => .error .isDirectory

/-- Waits until a file is stored. -/
def sync (tree : FileTree) (current : Key) (path : Path) : Except IoError Unit :=
  (locate tree current path).map fun _ => ()

/-- The content of a file. -/
def read (tree : FileTree) (current : Key) (path : Path) : Except IoError Bytes :=
  match locate tree current path with
  | .error e => .error e
  | .ok (_, .file content _) => .ok content
  | .ok _ => .error .isDirectory

/-- Removes an entry that is no directory. -/
def remove (tree : FileTree) (current : Key) (path : Path) : Except IoError FileTree :=
  match place tree current path with
  | .error e => .error e
  | .ok ⟨_, none, _⟩ => .error .isDirectory
  | .ok ⟨directory, some name, slashed⟩ =>
    match entryAt tree directory name with
    | .error e => .error e
    | .ok none => .error .notFound
    | .ok (some .directory) => .error .isDirectory
    | .ok (some _) =>
      if slashed then .error .notDirectory else .ok (tree.erase (directory ++ [name]))

/-- What stands in the way of moving an entry to another place, where an entry may
stand already. -/
def obstacle? (tree : FileTree) (source : Key) (node : Node) (target : Key)
    (there : Option Node) : Option IoError :=
  if isWithin source target then some .invalidArgument
  else if isWithin target source then some .notEmpty
  else
    match node, there with
    | .directory, some .directory => if tree.children target = [] then none else some .notEmpty
    | .directory, some _ => some .notDirectory
    | .directory, none => none
    | _, some .directory => some .isDirectory
    | _, _ => none

/-- Moves an entry to another place. A slash behind either name asks for a
directory to be moved. -/
def moveEntry (tree : FileTree) (source target : Key) (node : Node) (there : Option Node)
    (slashed : Bool) : Except IoError FileTree :=
  if slashed = true ∧ node ≠ .directory then .error .notDirectory
  else if source = target then .ok tree
  else
    match obstacle? tree source node target there with
    | some e => .error e
    | none => .ok (tree.move source target)

/-- Gives the entry with a name in a directory another name in a directory. -/
def renameEntry (tree : FileTree) (source target : Key) (sourceName targetName : Name)
    (slashed : Bool) : Except IoError FileTree :=
  match entryAt tree source sourceName with
  | .error e => .error e
  | .ok none => .error .notFound
  | .ok (some node) =>
    match entryAt tree target targetName with
    | .error e => .error e
    | .ok there =>
      moveEntry tree (source ++ [sourceName]) (target ++ [targetName]) node there slashed

/-- Gives an entry another name. -/
def rename (tree : FileTree) (current : Key) (source target : Path) : Except IoError FileTree :=
  if 0 ∈ target then .error .nulInPath
  else
    match place tree current source with
    | .error e => .error e
    | .ok start =>
      match place tree current target with
      | .error e => .error e
      | .ok goal =>
        match start.name, goal.name with
        | some sourceName, some targetName =>
          renameEntry tree start.directory goal.directory sourceName targetName
            (start.slashed || goal.slashed)
        | _, _ => .error .busy

/-- The answer of an operation that only changes the tree. -/
def changed (tree : FileTree) (result : Except IoError FileTree) : Except IoError Unit × FileTree :=
  match result with
  | .error e => (.error e, tree)
  | .ok after => (.ok (), after)

/-- Carries out an operation at an instant. -/
def perform (tree : FileTree) (current : Key) (now : Int) :
    (op : FileOp) → Except IoError op.Result × FileTree
  | .makeDirectory path => changed tree (makeDirectory tree current path)
  | .list path => (list tree current path, tree)
  | .stat path => (stat tree current path, tree)
  | .createNew path => changed tree (createNew tree current now path)
  | .createEmpty path => changed tree (createEmpty tree current now path)
  | .append path content => changed tree (append tree current now path content)
  | .sync path => (sync tree current path, tree)
  | .rename source target => changed tree (rename tree current source target)
  | .read path => (read tree current path, tree)
  | .remove path => changed tree (remove tree current path)

end FileTree
end DiskQueue
