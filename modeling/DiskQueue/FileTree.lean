/-
Module: DiskQueue.FileTree
Purpose: A tree of directories, files and symbolic links.
Trusted boundary: none
Main exports:
  Key, Node, FileTree, FileTree.lookup, FileTree.insert, FileTree.erase,
  FileTree.children, FileTree.move
-/
import DiskQueue.Forest

namespace DiskQueue

/-!
An entry stands under the names that lead to it from the root. The root itself is
always there: it is a directory, and no change to the tree makes it anything else.

A file belongs to its entry. Two names of one file (hard links) are not modelled: what
is written under one name is never seen under another one, and a file is moved away from
the one name that it has. Links that hold a path are entries of their own.

The main statements say what a change does to the entries: inserting and erasing
change one of them (`lookup_insert`, `lookup_erase`), moving takes what is at or
below one place to another (`lookup_move_append`, `lookup_move_source`,
`lookup_move_of_not_within`), and the children of a directory are the entries one
name further (`mem_children_iff`).
-/

/-- The names that lead from the root to an entry. -/
abbrev Key := List Name

/-- What an entry is. Times are milliseconds. -/
inductive Node where
  | directory
  | file (content : Bytes) (modified : Int)
  | link (target : Path)
deriving Repr, DecidableEq

/-- The kinds of entries. -/
inductive EntryKind where
  | directory
  | file
  | link
deriving Repr, DecidableEq

/-- The kind of an entry. -/
def Node.kind : Node → EntryKind
  | .directory => .directory
  | .file _ _ => .file
  | .link _ => .link

/-- Directories, files and links under their names. -/
structure FileTree where
  forest : Forest Node
  distinct : forest.Distinct

namespace FileTree

/-- The tree with nothing but the root. -/
def empty : FileTree := ⟨.nil, trivial⟩

/-- The root and what is below it. -/
def root (tree : FileTree) : Branch Node := ⟨some .directory, tree.forest⟩

/-- What stands under the given names, with all that is below it. -/
def branchAt (tree : FileTree) (key : Key) : Branch Node := tree.root.descend key

/-- The entry under the given names. -/
def lookup (tree : FileTree) (key : Key) : Option Node := (tree.branchAt key).value

/-- The entries of a directory with their names. -/
def children (tree : FileTree) (directory : Key) : List (Name × Node) :=
  (tree.branchAt directory).below.entries

theorem distinct_branchAt (tree : FileTree) (key : Key) : (tree.branchAt key).below.Distinct :=
  Branch.distinct_descend tree.distinct key

/-- The tree after a change to what stands under the given names. -/
def change (tree : FileTree) (key : Key) (f : Branch Node → Branch Node)
    (hf : ∀ b, b.below.Distinct → (f b).below.Distinct) : FileTree :=
  ⟨(Branch.update f key tree.root).below, Branch.distinct_update hf key tree.distinct⟩

/-- The tree with an entry under the given names, in the place of an older one. -/
def insert (tree : FileTree) (key : Key) (node : Node) : FileTree :=
  tree.change key (fun b => ⟨some node, b.below⟩) fun _ h => h

/-- The tree without the entry under the given names. -/
def erase (tree : FileTree) (key : Key) : FileTree :=
  tree.change key (fun b => ⟨none, b.below⟩) fun _ h => h

/-- The tree without an entry and all entries below it. -/
def eraseAll (tree : FileTree) (key : Key) : FileTree :=
  tree.change key (fun _ => Branch.empty) fun _ _ => Branch.distinct_empty

/-- The tree with an entry moved to another place together with all entries below
it. What was at that place is gone. -/
def move (tree : FileTree) (source target : Key) : FileTree :=
  (tree.eraseAll source).change target (fun _ => tree.branchAt source) fun _ _ =>
    tree.distinct_branchAt source

/-- Whether the names of one entry lead through another one or end there. -/
def isWithin (above key : Key) : Bool := above.isPrefixOf key

/-! ### What a change does to the entries -/

/-- The root is always there. -/
@[simp] theorem lookup_root (tree : FileTree) : tree.lookup [] = some .directory := rfl

/-- The children of a directory are the entries one name further. -/
theorem mem_children_iff {tree : FileTree} {directory : Key} {name : Name} {node : Node} :
    (name, node) ∈ tree.children directory ↔ tree.lookup (directory ++ [name]) = some node := by
  rw [lookup, branchAt, Branch.descend_append]
  exact Forest.mem_entries_iff (tree.distinct_branchAt directory)

/-- Below the root, the entries after a change are those of the changed branch. -/
theorem lookup_change (tree : FileTree) (key : Key) {f : Branch Node → Branch Node}
    (hf : ∀ b, b.below.Distinct → (f b).below.Distinct) {other : Key} (h : other ≠ []) :
    (tree.change key f hf).lookup other
      = ((Branch.update f key tree.root).descend other).value := by
  have below : (tree.change key f hf).root.below = (Branch.update f key tree.root).below := rfl
  rw [lookup, branchAt, Branch.descend_congr below h]

/-- A change does not reach beyond what is at or below its place. -/
theorem lookup_change_of_not_within (tree : FileTree) {key : Key} {f : Branch Node → Branch Node}
    (hf : ∀ b, b.below.Distinct → (f b).below.Distinct) {other : Key} (h : ¬ key <+: other) :
    (tree.change key f hf).lookup other = tree.lookup other := by
  by_cases ho : other = []
  · subst ho
    rfl
  · rw [lookup_change _ _ _ ho, Branch.value_descend_update_of_not_within _ h]
    rfl

/-- Inserting puts one entry in place and changes no other. -/
theorem lookup_insert (tree : FileTree) (key : Key) (node : Node) {other : Key} (h : other ≠ []) :
    (tree.insert key node).lookup other
      = if other = key then some node else tree.lookup other := by
  rw [insert, lookup_change _ _ _ h, Branch.value_descend_update]
  · rfl
  · exact fun _ => rfl

/-- Erasing takes away one entry and no other. -/
theorem lookup_erase (tree : FileTree) (key : Key) {other : Key} (h : other ≠ []) :
    (tree.erase key).lookup other = if other = key then none else tree.lookup other := by
  rw [erase, lookup_change _ _ _ h, Branch.value_descend_update]
  · rfl
  · exact fun _ => rfl

/-- Nothing is left where all was erased. -/
theorem lookup_eraseAll_append (tree : FileTree) {key more : Key} (h : key ++ more ≠ []) :
    (tree.eraseAll key).lookup (key ++ more) = none := by
  rw [eraseAll, lookup_change _ _ _ h, Branch.descend_update_append, Branch.descend_empty]
  rfl

/-- What was at or below the old place is at or below the new one. -/
theorem lookup_move_append (tree : FileTree) (source : Key) {target more : Key}
    (h : target ++ more ≠ []) :
    (tree.move source target).lookup (target ++ more) = tree.lookup (source ++ more) := by
  rw [move, lookup_change _ _ _ h, Branch.descend_update_append, lookup, branchAt, branchAt,
    Branch.descend_append]

/-- Nothing is left at or below the old place. -/
theorem lookup_move_source (tree : FileTree) {source target more : Key} (h : source ++ more ≠ [])
    (ht : ¬ target <+: source ++ more) :
    (tree.move source target).lookup (source ++ more) = none := by
  rw [move, lookup_change_of_not_within _ _ ht, lookup_eraseAll_append _ h]

/-- Moving changes nothing that is not at or below one of the two places. -/
theorem lookup_move_of_not_within (tree : FileTree) {source target other : Key}
    (hs : ¬ source <+: other) (ht : ¬ target <+: other) :
    (tree.move source target).lookup other = tree.lookup other := by
  rw [move, lookup_change_of_not_within _ _ ht, eraseAll, lookup_change_of_not_within _ _ hs]

end FileTree
end DiskQueue
