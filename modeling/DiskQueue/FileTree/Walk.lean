/-
Module: DiskQueue.FileTree.Walk
Purpose: What a path leads to.
Trusted boundary: none
Main exports:
  Target, Place, Position, FileTree.walk, FileTree.find, FileTree.locate,
  FileTree.place, FileTree.entry
-/
import DiskQueue.FileTree
import DiskQueue.IoError

namespace DiskQueue

/-!
A path is followed name by name from a directory. A single dot stays there, two
dots lead to the directory above. A symbolic link is replaced by its target, at
most forty times. All names but the last must lead to directories. The last one
may be missing, and then the walk ends with the directory that would hold it.

A slash behind the last name asks for a directory, and so does one at the end of
the target of a link that is followed there. Where a file is about to be made such
a slash is refused before the name is looked at.

Operations that act on an entry itself, and not on what it leads to, ask for its
place: the directory that holds it, and its name there.
-/

/-- Where a path ends. -/
inductive Target where
  | present (key : Key) (node : Node)
  | absent (directory : Key) (name : Name)
deriving Repr, DecidableEq

/-- Names to follow, and whether a slash stands behind the last one. -/
structure Route where
  names : List Name
  slashed : Bool
deriving Repr, DecidableEq

/-- What a walk is for: to find what is there, or to make a file. -/
inductive Intent where
  | finding
  | making
deriving Repr, DecidableEq

/-- A place on a walk with what stands there. The names that lead there stand with
the last one first. -/
structure Position (tree : FileTree) where
  up : List Name
  here : Branch Node
  here_eq : here = tree.branchAt up.reverse

namespace Position

variable {tree : FileTree}

/-- The place that names lead to. -/
def ofKey (tree : FileTree) (key : Key) : Position tree :=
  ⟨key.reverse, tree.branchAt key, by rw [List.reverse_reverse]⟩

/-- The names that lead to a place. -/
def key (p : Position tree) : Key := p.up.reverse

/-- The entry at a place. -/
def node? (p : Position tree) : Option Node := p.here.value

/-- The place one name further. -/
def down (p : Position tree) (name : Name) : Position tree where
  up := name :: p.up
  here := p.here.child name
  here_eq := by
    rw [List.reverse_cons, FileTree.branchAt, Branch.descend_append, p.here_eq]
    rfl

/-- The place above; the root is above itself. -/
def above (p : Position tree) : Position tree := ofKey tree p.up.tail.reverse

theorem node?_eq (p : Position tree) : p.node? = tree.lookup p.key := by
  rw [node?, p.here_eq]
  rfl

@[simp] theorem key_ofKey (tree : FileTree) (key : Key) : (ofKey tree key).key = key :=
  List.reverse_reverse key

@[simp] theorem key_down (p : Position tree) (name : Name) : (p.down name).key = p.key ++ [name] :=
  List.reverse_cons

end Position

/-- The directory that holds an entry, and the name of the entry; no name where a
path ends in dots or at the root. The entry need not be there. -/
structure Place where
  directory : Key
  name : Option Name
  slashed : Bool
deriving Repr, DecidableEq

namespace FileTree

/-- The greatest number of bytes of a name. -/
def maxNameLength : Nat := 255

/-- The number of bytes that a path stays below. -/
def maxPathLength : Nat := 4096

/-- The number of links that may be replaced on the way. -/
def maxJumps : Nat := 40

/-- The names that a path leads through. -/
def steps (path : Path) : List Name := path.pieces.filter fun piece => piece ≠ []

/-- The route of a path. -/
def route (path : Path) : Route := ⟨steps path, path.getLast? = some Path.slash⟩

/-- The route through a link and on from there. -/
def routeThrough (target : Path) (rest : Route) : Route :=
  if rest.names = [] then ⟨steps target, (route target).slashed || rest.slashed⟩
  else ⟨steps target ++ rest.names, rest.slashed⟩

/-- Where a path starts. -/
def origin (current : Key) (path : Path) : Key := if path.isAbsolute then [] else current

/-- Names that stand for a directory wherever they stand. -/
def isDots (name : Name) : Bool := name = [Path.dot] || name = [Path.dot, Path.dot]

/-- Follows names from a directory. What comes behind a link is left to `jump`,
with the directory and the route to follow from there. -/
def walkFrom {tree : FileTree} (intent : Intent) (jump : Key → Route → Except IoError Target)
    (slashed : Bool) : Position tree → List Name → Except IoError Target
  | p, [] =>
    match p.node? with
    | some node => .ok (.present p.key node)
    | none => .error .notFound
  | p, name :: rest =>
    if name = [Path.dot] then walkFrom intent jump slashed p rest
    else if name = [Path.dot, Path.dot] then walkFrom intent jump slashed p.above rest
    else if rest = [] ∧ slashed = true ∧ intent = .making then .error .isDirectory
    else if maxNameLength < name.length then .error .nameTooLong
    else
      match (p.down name).node? with
      | none => if rest = [] then .ok (.absent p.key name) else .error .notFound
      | some .directory => walkFrom intent jump slashed (p.down name) rest
      | some (.file content modified) =>
        if rest = [] ∧ slashed = false then
          .ok (.present (p.down name).key (.file content modified))
        else .error .notDirectory
      | some (.link target) => jump (origin p.key target) (routeThrough target ⟨rest, slashed⟩)

/-- Follows a route from a directory through so many links. -/
def walk (tree : FileTree) (intent : Intent) : Nat → Key → Route → Except IoError Target
  | 0, key, way =>
    walkFrom intent (fun _ _ => .error .linkLoop) way.slashed (.ofKey tree key) way.names
  | jumps + 1, key, way =>
    walkFrom intent (walk tree intent jumps) way.slashed (.ofKey tree key) way.names

/-- Paths that no tree is asked about: with a byte zero, empty, or too long. -/
def refusal? (path : Path) : Option IoError :=
  if 0 ∈ path then some .nulInPath
  else if path = [] then some .notFound
  else if maxPathLength ≤ path.length then some .nameTooLong
  else none

/-- Follows a path from the current directory. -/
def find (tree : FileTree) (current : Key) (intent : Intent) (path : Path) :
    Except IoError Target :=
  match refusal? path with
  | some e => .error e
  | none => walk tree intent maxJumps (origin current path) (route path)

/-- The entry that a path leads to. -/
def locate (tree : FileTree) (current : Key) (path : Path) : Except IoError (Key × Node) :=
  match find tree current .finding path with
  | .error e => .error e
  | .ok (.present key node) => .ok (key, node)
  | .ok (.absent _ _) => .error .notFound

/-- The place that a path names. The way there may lead through links, but a link
at the place itself is not followed. -/
def place (tree : FileTree) (current : Key) (path : Path) : Except IoError Place :=
  match refusal? path with
  | some e => .error e
  | none =>
    let way := route path
    match walk tree .finding maxJumps (origin current path) ⟨way.names.dropLast, true⟩ with
    | .error e => .error e
    | .ok (.absent _ _) => .error .notFound
    | .ok (.present key _) =>
      .ok ⟨key, way.names.getLast?.filter fun name => !isDots name, way.slashed⟩

/-- The entry with a name in a directory, if there is one. -/
def entryAt (tree : FileTree) (directory : Key) (name : Name) : Except IoError (Option Node) :=
  if maxNameLength < name.length then .error .nameTooLong
  else .ok (tree.lookup (directory ++ [name]))

/-- The entry that a path names. A link is that entry itself, unless a slash behind
its name asks for the directory that it leads to. -/
def entry (tree : FileTree) (current : Key) (path : Path) : Except IoError (Key × Node) :=
  match place tree current path with
  | .error e => .error e
  | .ok ⟨directory, some name, false⟩ =>
    match entryAt tree directory name with
    | .error e => .error e
    | .ok none => .error .notFound
    | .ok (some node) => .ok (directory ++ [name], node)
  | .ok _ => locate tree current path

end FileTree
end DiskQueue
