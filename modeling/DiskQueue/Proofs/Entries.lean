/-
Module: DiskQueue.Proofs.Entries
Purpose: What operations on the entries of one directory do to it, and what they
  leave as it is.
Trusted boundary: none
Main exports:
  FileTree.Sets, FileTree.Moves, FileTree.Follows, FileTree.insertAll, FileTree.createNew_join,
  FileTree.createEmpty_join, FileTree.append_join, FileTree.rename_join,
  FileTree.remove_join, FileTree.locate_join
-/
import DiskQueue.Proofs.Folder

namespace DiskQueue

/-!
A queue names its files through the path of its directory. Each operation is told here
from the entries of the directory that the path leads to: it succeeds only if there is
such a directory, and changes a single entry or gives one entry the name of another.

No such change makes or removes a directory or a link under a name that was free or
belonged to a file. So the path of a queue keeps leading to the same directory, unless a
link on the way was itself an entry that has been replaced by a file; then it leads
nowhere. `Follows` is what a directory keeps from all its queues.
-/

namespace FileTree

variable {tree before mid after : FileTree} {current folder : Key} {name : Name}

/-! ### Changes of single entries -/

/-- One entry of a directory becomes what is given, and all others stay. -/
def Sets (folder : Key) (name : Name) (node? : Option Node) (before after : FileTree) : Prop :=
  ∀ key, after.lookup key = if key = folder ++ [name] then node? else before.lookup key

/-- One entry of a directory gets the name of another one, and all others stay. -/
def Moves (folder : Key) (source target : Name) (before after : FileTree) : Prop :=
  ∀ key, after.lookup key
    = if key = folder ++ [target] then before.lookup (folder ++ [source])
      else if key = folder ++ [source] then none
      else before.lookup key

/-- A name is free or belongs to a file. -/
def IsPlain (tree : FileTree) (folder : Key) (name : Name) : Prop :=
  ∀ node, tree.lookup (folder ++ [name]) = some node → node.kind = .file

theorem isPlain_of_free {tree : FileTree} {folder : Key} {name : Name}
    (free : tree.lookup (folder ++ [name]) = none) : tree.IsPlain folder name :=
  fun _ there => nomatch free.symm.trans there

theorem isPlain_of_file {tree : FileTree} {folder : Key} {name : Name} {content : Bytes}
    {modified : Int} (file : tree.lookup (folder ++ [name]) = some (.file content modified)) :
    tree.IsPlain folder name := by
  intro node there
  cases file.symm.trans there
  rfl

theorem sets_insert (tree : FileTree) (folder : Key) (name : Name) (node : Node) :
    Sets folder name (some node) tree (tree.insert (folder ++ [name]) node) := by
  intro key
  by_cases root : key = []
  · subst root
    simp
  · exact lookup_insert tree _ _ root

theorem sets_erase (tree : FileTree) (folder : Key) (name : Name) :
    Sets folder name none tree (tree.erase (folder ++ [name])) := by
  intro key
  by_cases root : key = []
  · subst root
    simp
  · exact lookup_erase tree _ root

theorem Sets.lookup_self {node? : Option Node} (h : Sets folder name node? before after) :
    after.lookup (folder ++ [name]) = node? := by
  rw [h, if_pos rfl]

theorem Sets.lookup_other {node? : Option Node} (h : Sets folder name node? before after)
    {key : Key} (other : key ≠ folder ++ [name]) : after.lookup key = before.lookup key := by
  rw [h, if_neg other]

theorem Sets.lookup_sibling {node? : Option Node} (h : Sets folder name node? before after)
    {other : Name} (ho : other ≠ name) :
    after.lookup (folder ++ [other]) = before.lookup (folder ++ [other]) :=
  h.lookup_other (by simpa using ho)

/-- Of two changes to one entry the later one counts. -/
theorem Sets.trans {first second : Option Node} (h₁ : Sets folder name first before mid)
    (h₂ : Sets folder name second mid after) : Sets folder name second before after := by
  intro key
  rw [h₂]
  split
  · rfl
  · rename_i other
    exact h₁.lookup_other other

/-- A file that is moved takes nothing with it, since nothing is below it. -/
theorem moves_move (wf : tree.WellFormed) {source target : Name} {content : Bytes} {modified : Int}
    (file : tree.lookup (folder ++ [source]) = some (.file content modified))
    (there : tree.lookup (folder ++ [target]) ≠ some .directory) :
    Moves folder source target tree
      (tree.move (folder ++ [source]) (folder ++ [target])) := by
  have below : ∀ {above : Key}, tree.lookup above ≠ some .directory → ∀ {more : Key}, more ≠ [] →
      tree.lookup (above ++ more) = none := by
    intro above h more nonempty
    obtain ⟨first, rest, rfl⟩ := List.exists_cons_of_ne_nil nonempty
    exact wf.lookup_below h first rest
  have notDirectory : tree.lookup (folder ++ [source]) ≠ some .directory := by simp [file]
  intro key
  by_cases underTarget : folder ++ [target] <+: key
  · obtain ⟨more, rfl⟩ := underTarget
    rw [lookup_move_append tree _ (by simp)]
    by_cases own : more = []
    · simp [own]
    · rw [below notDirectory own, if_neg (by simpa using own)]
      split
      · rfl
      · rw [below there own]
  · rw [if_neg (by rintro rfl; exact underTarget List.prefix_rfl)]
    by_cases underSource : folder ++ [source] <+: key
    · obtain ⟨more, rfl⟩ := underSource
      rw [lookup_move_source tree (by simp) underTarget]
      split
      · rfl
      · rename_i other
        rw [below notDirectory fun own => other (by simp [own])]
    · rw [lookup_move_of_not_within tree underSource underTarget,
        if_neg (by rintro rfl; exact underSource List.prefix_rfl)]

/-! ### What stays -/

/-- Directories are the same, links at most get fewer, and no link is lost if none lies
in the folder itself. -/
structure Follows (folder : Key) (before after : FileTree) : Prop where
  directories : ∀ key, after.lookup key = some .directory ↔ before.lookup key = some .directory
  links : ∀ key target, after.lookup key = some (.link target) →
    before.lookup key = some (.link target)
  keeps : (∀ name target, before.lookup (folder ++ [name]) ≠ some (.link target)) →
    ∀ key target, before.lookup key = some (.link target) → after.lookup key = some (.link target)
  wellFormed : before.WellFormed → after.WellFormed

theorem Follows.refl (folder : Key) (tree : FileTree) : Follows folder tree tree where
  directories _ := Iff.rfl
  links _ _ h := h
  keeps _ _ _ h := h
  wellFormed h := h

theorem Follows.trans (h₁ : Follows folder before mid) (h₂ : Follows folder mid after) :
    Follows folder before after where
  directories key := (h₂.directories key).trans (h₁.directories key)
  links key target h := h₁.links key target (h₂.links key target h)
  keeps none key target h :=
    h₂.keeps (fun name target found => none name target (h₁.links _ _ found)) key target
      (h₁.keeps none key target h)
  wellFormed h := h₂.wellFormed (h₁.wellFormed h)

theorem Follows.isPlain (h : Follows folder before after) (plain : before.IsPlain folder name) :
    after.IsPlain folder name := by
  intro node found
  cases node with
  | directory => exact plain _ ((h.directories _).mp found)
  | file content modified => rfl
  | link target => exact plain _ (h.links _ _ found)

/-- A path that leads to a directory later on has led to the same one before. -/
theorem Follows.folder? (h : Follows folder before after) {directory : Path} {key : Key}
    (found : after.folder? current directory = some key) :
    before.folder? current directory = some key := by
  refine folder?_mono ?_ found
  intro k node notFile there
  cases node with
  | directory => exact (h.directories k).mp there
  | file content modified => exact absurd rfl notFile
  | link target => exact h.links k target there

/-- Without links in the folder a path keeps leading where it has led. -/
theorem Follows.folder?_of_plain (h : Follows folder before after)
    (none : ∀ name target, before.lookup (folder ++ [name]) ≠ some (.link target))
    {directory : Path} {key : Key} (found : before.folder? current directory = some key) :
    after.folder? current directory = some key := by
  refine folder?_mono ?_ found
  intro k node notFile there
  cases node with
  | directory => exact (h.directories k).mpr there
  | file content modified => exact absurd rfl notFile
  | link target => exact h.keeps none k target there

theorem ne_append_singleton (folder : Key) (name : Name) : folder ≠ folder ++ [name] := by
  simp

/-- A folder may get an entry with a proper name, or lose one that has nothing below it. -/
theorem Sets.wellFormed {node? : Option Node} (h : Sets folder name node? before after)
    (notDirectory : before.lookup (folder ++ [name]) ≠ some .directory)
    (here : before.lookup folder = some .directory)
    (made : ∀ node, node? = some node → name.IsProper) (wf : before.WellFormed) :
    after.WellFormed := by
  constructor
  · intro key child node found
    rw [h] at found
    split at found
    · rename_i own
      obtain ⟨rfl, -⟩ := List.append_inj' own rfl
      rw [h.lookup_other (ne_append_singleton _ _)]
      exact here
    · have parent := wf.parent found
      rw [h.lookup_other]
      · exact parent
      · rintro rfl
        exact notDirectory parent
  · intro key child node found
    rw [h] at found
    split at found
    · rename_i own
      obtain ⟨-, same⟩ := List.append_inj' own rfl
      cases same
      exact made _ found
    · exact wf.proper found

theorem WellFormed.insert (wf : tree.WellFormed) (proper : name.IsProper)
    (here : tree.lookup folder = some .directory)
    (notDirectory : tree.lookup (folder ++ [name]) ≠ some .directory) (node : Node) :
    (tree.insert (folder ++ [name]) node).WellFormed :=
  (sets_insert tree folder name node).wellFormed notDirectory here (fun _ _ => proper) wf

/-- A folder gets entries, one after another. -/
def insertAll (tree : FileTree) (folder : Key) (entries : List (Name × Node)) : FileTree :=
  entries.foldl (fun tree entry => tree.insert (folder ++ [entry.1]) entry.2) tree

theorem WellFormed.insertAll (wf : tree.WellFormed) {entries : List (Name × Node)}
    (here : tree.lookup folder = some .directory)
    (proper : ∀ entry ∈ entries, entry.1.IsProper)
    (notDirectory : ∀ entry ∈ entries, tree.lookup (folder ++ [entry.1]) ≠ some .directory)
    (distinct : (entries.map Prod.fst).Nodup) : (tree.insertAll folder entries).WellFormed := by
  induction entries generalizing tree with
  | nil => exact wf
  | cons first rest ih =>
    rw [List.forall_mem_cons] at proper notDirectory
    rw [List.map_cons, List.nodup_cons] at distinct
    have sets := sets_insert tree folder first.1 first.2
    refine ih (wf.insert proper.1 here notDirectory.1 _) ?_ proper.2 ?_ distinct.2
    · rwa [sets.lookup_other (ne_append_singleton _ _)]
    · intro entry mem
      rw [sets.lookup_sibling fun same => distinct.1 (same ▸ List.mem_map_of_mem mem)]
      exact notDirectory.2 entry mem

theorem Sets.follows {node? : Option Node} (h : Sets folder name node? before after)
    (notDirectory : before.lookup (folder ++ [name]) ≠ some .directory)
    (here : before.lookup folder = some .directory)
    (made : ∀ node, node? = some node → node.kind = .file ∧ name.IsProper) :
    Follows folder before after where
  directories key := by
    rw [h]
    split
    · rename_i own
      subst own
      simp only [notDirectory, iff_false]
      intro found
      have := (made _ found).1
      simp [Node.kind] at this
    · exact Iff.rfl
  links key target found := by
    rw [h] at found
    split at found
    · have := (made _ found).1
      simp [Node.kind] at this
    · exact found
  keeps none key target found := by
    rw [h.lookup_other]
    · exact found
    · rintro rfl
      exact none _ _ found
  wellFormed := h.wellFormed notDirectory here fun node own => (made node own).2

/-- A path keeps leading where it has led if the entry that changes was no link. -/
theorem Sets.folder?_of_plain {node? : Option Node} (h : Sets folder name node? before after)
    (plain : before.IsPlain folder name) {directory : Path} {key : Key}
    (found : before.folder? current directory = some key) :
    after.folder? current directory = some key := by
  refine folder?_mono ?_ found
  intro k node notFile there
  rw [h.lookup_other]
  · exact there
  · rintro rfl
    exact notFile (plain _ there)

/-- A move is the loss of one name and the gain of another. -/
theorem Moves.follows {source target : Name} (h : Moves folder source target before after)
    {content : Bytes} {modified : Int}
    (file : before.lookup (folder ++ [source]) = some (.file content modified))
    (there : before.lookup (folder ++ [target]) ≠ some .directory)
    (here : before.lookup folder = some .directory) (ht : target.IsProper) :
    Follows folder before after := by
  have lost := sets_erase before folder source
  have gained : Sets folder target (some (.file content modified))
      (before.erase (folder ++ [source])) after := by
    intro key
    rw [h, lost, file]
  refine (lost.follows (by simp [file]) here (by simp)).trans (gained.follows ?_ ?_ ?_)
  · rw [lost]
    split
    · simp
    · exact there
  · rw [lost.lookup_other (ne_append_singleton _ _)]
    exact here
  · rintro node ⟨⟩
    exact ⟨rfl, ht⟩

/-! ### Operations on the entries of a directory -/

/-- The path of an entry is one that is looked at. -/
structure Fits (directory : Path) (name : Name) : Prop where
  accepted : refusal? (directory.join name) = none
  short : name.length ≤ maxNameLength

instance (directory : Path) (name : Name) : Decidable (Fits directory name) :=
  decidable_of_iff (refusal? (directory.join name) = none ∧ name.length ≤ maxNameLength)
    ⟨fun ⟨accepted, short⟩ => ⟨accepted, short⟩, fun ⟨accepted, short⟩ => ⟨accepted, short⟩⟩

theorem Fits.congr {directory : Path} {a b : Name} (h : Fits directory a) (ha : a.IsProper)
    (hb : b.IsProper) (length : a.length = b.length) (zero : (0 : UInt8) ∈ a ↔ (0 : UInt8) ∈ b) :
    Fits directory b :=
  ⟨(Path.refusal?_join_congr directory ha hb length zero).symm.trans h.accepted,
    length ▸ h.short⟩

section Operations

variable {directory : Path}

theorem entryAt_eq_ok {node? : Option Node} (h : entryAt tree folder name = .ok node?) :
    name.length ≤ maxNameLength ∧ tree.lookup (folder ++ [name]) = node? := by
  unfold entryAt at h
  split at h
  · cases h
  · rename_i short
    cases h
    exact ⟨Nat.le_of_not_lt short, rfl⟩

theorem entryAt_of_short (h : name.length ≤ maxNameLength) :
    entryAt tree folder name = .ok (tree.lookup (folder ++ [name])) :=
  if_neg (Nat.not_lt.mpr h)

theorem addEntry_eq_ok {node : Node} (h : addEntry tree folder name node = .ok after) :
    name.length ≤ maxNameLength ∧ tree.lookup (folder ++ [name]) = none ∧
      Sets folder name (some node) tree after := by
  unfold addEntry at h
  split at h
  · cases h
  · cases h
  · rename_i free
    cases h
    obtain ⟨short, none⟩ := entryAt_eq_ok free
    exact ⟨short, none, sets_insert tree folder name node⟩

section Places

variable (wf : tree.WellFormed) (here : tree.lookup current = some .directory)
include wf here

/-- The path of an entry names its place, or none at all. -/
theorem place_join_cases (directory : Path) (hname : name.IsProper) :
    (∃ e, place tree current (directory.join name) = .error e) ∨
    ∃ key, refusal? (directory.join name) = none ∧ tree.folder? current directory = some key ∧
      place tree current (directory.join name) = .ok ⟨key, some name, false⟩ := by
  cases refused : refusal? (directory.join name) with
  | some e =>
    left
    rw [place, refused]
    exact ⟨e, rfl⟩
  | none =>
    cases found : tree.folder? current directory with
    | none => exact .inl (place_join_of_lost wf here hname found)
    | some key => exact .inr ⟨key, rfl, rfl, place_join hname refused found⟩

/-- The path of an entry leads to it if it is no link, or to nothing at all. -/
theorem find_join_cases (directory : Path) (hname : name.IsProper) (intent : Intent) :
    (∃ e, find tree current intent (directory.join name) = .error e) ∨
    ∃ key, ∃ jump : Key → Route → Except IoError Target, Fits directory name ∧
      tree.folder? current directory = some key ∧
      find tree current intent (directory.join name)
        = match tree.lookup (key ++ [name]) with
          | none => .ok (.absent key name)
          | some (.link target) => jump (origin key target) (routeThrough target ⟨[], false⟩)
          | some node => .ok (.present (key ++ [name]) node) := by
  cases refused : refusal? (directory.join name) with
  | some e =>
    left
    rw [find, refused]
    exact ⟨e, rfl⟩
  | none =>
    cases found : tree.folder? current directory with
    | none => exact .inl (find_join_of_lost wf here hname found intent)
    | some key =>
      obtain ⟨jump, walked⟩ := find_join wf here hname refused found intent
      rw [walkFrom_cons, if_neg hname.dot, if_neg hname.dots, if_neg (by simp)] at walked
      by_cases long : maxNameLength < name.length
      · rw [if_pos long] at walked
        exact .inl ⟨_, walked⟩
      · rw [if_neg long] at walked
        refine .inr ⟨key, jump, ⟨refused, Nat.le_of_not_lt long⟩, rfl, walked.trans ?_⟩
        cases there : tree.lookup (key ++ [name]) with
        | none => rfl
        | some node =>
          cases node with
          | directory => rw [walkFrom_nil, there]
          | file content modified => rfl
          | link target => rfl

/-- Making a new file takes a free name. -/
theorem createNew_join {now : Int} (hname : name.IsProper)
    (h : createNew tree current now (directory.join name) = .ok after) :
    ∃ key, tree.folder? current directory = some key ∧ Fits directory name ∧
      tree.lookup (key ++ [name]) = none ∧ Sets key name (some (.file [] now)) tree after := by
  unfold createNew at h
  rcases place_join_cases wf here directory hname with ⟨e, placed⟩ | ⟨key, accepted, found, placed⟩
  · rw [placed] at h
    cases h
  · rw [placed] at h
    simp only [Bool.false_eq_true, if_false] at h
    obtain ⟨short, free, sets⟩ := addEntry_eq_ok h
    exact ⟨key, found, ⟨accepted, short⟩, free, sets⟩

/-- Removing takes away an entry that is no directory. -/
theorem remove_join (hname : name.IsProper)
    (h : remove tree current (directory.join name) = .ok after) :
    ∃ key node, tree.folder? current directory = some key ∧ Fits directory name ∧
      tree.lookup (key ++ [name]) = some node ∧ node ≠ .directory ∧
      Sets key name none tree after := by
  unfold remove at h
  rcases place_join_cases wf here directory hname with ⟨e, placed⟩ | ⟨key, accepted, found, placed⟩
  · rw [placed] at h
    cases h
  · rw [placed] at h
    simp only [Bool.false_eq_true, if_false] at h
    split at h
    · cases h
    · cases h
    · cases h
    · rename_i node notDirectory entry
      cases h
      obtain ⟨short, there⟩ := entryAt_eq_ok entry
      exact ⟨key, node, found, ⟨accepted, short⟩, there, notDirectory, sets_erase tree key name⟩

/-- Renaming a file gives it a name that no directory has. -/
theorem rename_join {source target : Name} (hs : source.IsProper) (ht : target.IsProper)
    (different : source ≠ target)
    (plain : ∀ key, tree.folder? current directory = some key → tree.IsPlain key source)
    (h : rename tree current (directory.join source) (directory.join target) = .ok after) :
    ∃ key content modified, tree.folder? current directory = some key ∧
      Fits directory source ∧ Fits directory target ∧
      tree.lookup (key ++ [source]) = some (.file content modified) ∧
      tree.lookup (key ++ [target]) ≠ some .directory ∧ Moves key source target tree after := by
  unfold rename at h
  split at h
  · cases h
  rcases place_join_cases wf here directory hs with ⟨e, start⟩ | ⟨key, accepted, found, start⟩
  · rw [start] at h
    cases h
  rcases place_join_cases wf here directory ht with ⟨e, goal⟩ | ⟨key', accepted', found', goal⟩
  · rw [start, goal] at h
    cases h
  cases found.symm.trans found'
  rw [start, goal] at h
  simp only [Bool.or_self] at h
  unfold renameEntry at h
  split at h
  · cases h
  · cases h
  rename_i node entry
  split at h
  · cases h
  rename_i there entry'
  obtain ⟨short, source_eq⟩ := entryAt_eq_ok entry
  obtain ⟨short', target_eq⟩ := entryAt_eq_ok entry'
  cases node with
  | directory => exact absurd (plain key found _ source_eq) (by simp [Node.kind])
  | link path => exact absurd (plain key found _ source_eq) (by simp [Node.kind])
  | file content modified =>
    unfold moveEntry at h
    rw [if_neg (by simp), if_neg (by simpa using different)] at h
    split at h
    · cases h
    · rename_i free
      cases h
      have notDirectory : tree.lookup (key ++ [target]) ≠ some .directory := by
        intro directory
        rw [← target_eq, directory] at free
        unfold obstacle? at free
        split_ifs at free
      exact ⟨key, content, modified, found, ⟨accepted, short⟩, ⟨accepted', short'⟩, source_eq,
        notDirectory, moves_move wf source_eq notDirectory⟩

/-- What is found at the path of an entry that is no link is that entry. -/
theorem locate_join {key : Key} {node : Node} (hname : name.IsProper)
    (plain : ∀ key, tree.folder? current directory = some key → tree.IsPlain key name)
    (h : locate tree current (directory.join name) = .ok (key, node)) :
    ∃ folder, tree.folder? current directory = some folder ∧ Fits directory name ∧
      key = folder ++ [name] ∧ tree.lookup (folder ++ [name]) = some node := by
  unfold locate at h
  rcases find_join_cases wf here directory hname .finding with
    ⟨e, walked⟩ | ⟨folder, jump, fits, found, walked⟩
  · rw [walked] at h
    cases h
  · rw [walked] at h
    cases there : tree.lookup (folder ++ [name]) with
    | none =>
      rw [there] at h
      cases h
    | some node' =>
      rw [there] at h
      cases node' with
      | directory => exact absurd (plain folder found _ there) (by simp [Node.kind])
      | link target => exact absurd (plain folder found _ there) (by simp [Node.kind])
      | file content modified =>
        cases h
        exact ⟨folder, found, fits, rfl, there⟩

/-- What is known about an entry that is no link is known about a file. -/
theorem stat_join {found : Stat} (hname : name.IsProper)
    (plain : ∀ key, tree.folder? current directory = some key → tree.IsPlain key name)
    (h : stat tree current (directory.join name) = .ok found) :
    ∃ folder content modified, tree.folder? current directory = some folder ∧
      Fits directory name ∧ tree.lookup (folder ++ [name]) = some (.file content modified) ∧
      found = ⟨.file, content.length, modified⟩ := by
  unfold stat at h
  split at h
  · cases h
  · rename_i key node located
    cases h
    obtain ⟨folder, leads, fits, rfl, there⟩ := locate_join wf here hname plain located
    cases node with
    | file content modified => exact ⟨folder, content, modified, leads, fits, there, rfl⟩
    | directory => exact absurd (plain folder leads _ there) (by simp [Node.kind])
    | link target => exact absurd (plain folder leads _ there) (by simp [Node.kind])

theorem read_join {content : Bytes} (hname : name.IsProper)
    (plain : ∀ key, tree.folder? current directory = some key → tree.IsPlain key name)
    (h : read tree current (directory.join name) = .ok content) :
    ∃ folder modified, tree.folder? current directory = some folder ∧
      tree.lookup (folder ++ [name]) = some (.file content modified) := by
  unfold read at h
  split at h
  · cases h
  · rename_i key content' modified located
    cases h
    obtain ⟨folder, leads, fits, rfl, there⟩ := locate_join wf here hname plain located
    exact ⟨folder, modified, leads, there⟩
  · cases h

/-- Bytes are put at the end of a file that is there. -/
theorem append_join {now : Int} {content : Bytes} (hname : name.IsProper)
    (plain : ∀ key, tree.folder? current directory = some key → tree.IsPlain key name)
    (h : append tree current now (directory.join name) content = .ok after) :
    ∃ folder start modified, tree.folder? current directory = some folder ∧
      tree.lookup (folder ++ [name]) = some (.file start modified) ∧
      Sets folder name (some (.file (start ++ content) now)) tree after := by
  unfold append at h
  split at h
  · cases h
  · rename_i key start modified located
    cases h
    obtain ⟨folder, leads, fits, rfl, there⟩ := locate_join wf here hname plain located
    exact ⟨folder, start, modified, leads, there, sets_insert tree folder name _⟩
  · cases h

/-- An emptied file is there afterwards, whether or not it was before. -/
theorem createEmpty_join {now : Int} (hname : name.IsProper)
    (plain : ∀ key, tree.folder? current directory = some key → tree.IsPlain key name)
    (h : createEmpty tree current now (directory.join name) = .ok after) :
    ∃ folder, tree.folder? current directory = some folder ∧ Fits directory name ∧
      Sets folder name (some (.file [] now)) tree after := by
  unfold createEmpty at h
  rcases find_join_cases wf here directory hname .making with
    ⟨e, walked⟩ | ⟨folder, jump, fits, leads, walked⟩
  · rw [walked] at h
    cases h
  · rw [walked] at h
    refine ⟨folder, leads, fits, ?_⟩
    cases there : tree.lookup (folder ++ [name]) with
    | none =>
      rw [there] at h
      cases h
      exact sets_insert tree folder name _
    | some node =>
      rw [there] at h
      cases node with
      | directory => exact absurd (plain folder leads _ there) (by simp [Node.kind])
      | link target => exact absurd (plain folder leads _ there) (by simp [Node.kind])
      | file content modified =>
        cases h
        exact sets_insert tree folder name _

/-! ### Operations that succeed -/

variable {content : Bytes} {modified : Int}

theorem locate_of_file (hname : name.IsProper) (fits : Fits directory name)
    (leads : tree.folder? current directory = some folder)
    (there : tree.lookup (folder ++ [name]) = some (.file content modified)) :
    locate tree current (directory.join name) = .ok (folder ++ [name], .file content modified) := by
  obtain ⟨jump, walked⟩ := find_join wf here hname fits.accepted leads .finding
  rw [locate, walked, walkFrom_cons, if_neg hname.dot, if_neg hname.dots, if_neg (by simp),
    if_neg (Nat.not_lt.mpr fits.short), there]
  rfl

theorem stat_of_file (hname : name.IsProper) (fits : Fits directory name)
    (leads : tree.folder? current directory = some folder)
    (there : tree.lookup (folder ++ [name]) = some (.file content modified)) :
    stat tree current (directory.join name) = .ok ⟨.file, content.length, modified⟩ := by
  rw [stat, locate_of_file wf here hname fits leads there]
  rfl

theorem read_of_file (hname : name.IsProper) (fits : Fits directory name)
    (leads : tree.folder? current directory = some folder)
    (there : tree.lookup (folder ++ [name]) = some (.file content modified)) :
    read tree current (directory.join name) = .ok content := by
  rw [read, locate_of_file wf here hname fits leads there]

/-- Where no entry but a file stands, an empty file can be made. -/
theorem createEmpty_of_plain {now : Int} (hname : name.IsProper) (fits : Fits directory name)
    (leads : tree.folder? current directory = some folder) (plain : tree.IsPlain folder name) :
    ∃ after, createEmpty tree current now (directory.join name) = .ok after := by
  obtain ⟨jump, walked⟩ := find_join wf here hname fits.accepted leads .making
  rw [createEmpty, walked, walkFrom_cons, if_neg hname.dot, if_neg hname.dots, if_neg (by simp),
    if_neg (Nat.not_lt.mpr fits.short)]
  cases there : tree.lookup (folder ++ [name]) with
  | none => exact ⟨_, rfl⟩
  | some node =>
    cases node with
    | directory => exact absurd (plain _ there) (by simp [Node.kind])
    | link target => exact absurd (plain _ there) (by simp [Node.kind])
    | file content modified => exact ⟨_, rfl⟩

end Places

theorem remove_of_entry {node : Node} (hname : name.IsProper) (fits : Fits directory name)
    (leads : tree.folder? current directory = some folder)
    (there : tree.lookup (folder ++ [name]) = some node) (notDirectory : node ≠ .directory) :
    ∃ after, remove tree current (directory.join name) = .ok after := by
  refine ⟨tree.erase (folder ++ [name]), ?_⟩
  rw [remove, place_join hname fits.accepted leads]
  simp only [entryAt_of_short fits.short, there]
  cases node with
  | directory => exact absurd rfl notDirectory
  | file content modified => rfl
  | link target => rfl

theorem rename_of_file {source target : Name} (hs : source.IsProper) (ht : target.IsProper)
    (different : source ≠ target) (fits : Fits directory source) (fits' : Fits directory target)
    (leads : tree.folder? current directory = some folder)
    {content : Bytes} {modified : Int}
    (there : tree.lookup (folder ++ [source]) = some (.file content modified))
    (free : tree.lookup (folder ++ [target]) ≠ some .directory) :
    ∃ after, rename tree current (directory.join source) (directory.join target) = .ok after := by
  have noZero : 0 ∉ directory.join target := by
    intro zero
    have accepted := fits'.accepted
    rw [refusal?, if_pos zero] at accepted
    cases accepted
  have apart : ∀ {a b : Name}, a ≠ b → isWithin (folder ++ [a]) (folder ++ [b]) = false := by
    intro a b other
    rw [isWithin, Bool.eq_false_iff, Ne, List.isPrefixOf_iff_prefix]
    intro within
    exact other (by simpa using within.eq_of_length (by simp))
  have unobstructed : obstacle? tree (folder ++ [source]) (.file content modified)
      (folder ++ [target]) (tree.lookup (folder ++ [target])) = none := by
    unfold obstacle?
    rw [apart different, apart different.symm]
    cases target_eq : tree.lookup (folder ++ [target]) with
    | none => rfl
    | some node =>
      cases node with
      | directory => exact absurd target_eq free
      | file _ _ => rfl
      | link _ => rfl
  refine ⟨tree.move (folder ++ [source]) (folder ++ [target]), ?_⟩
  rw [rename, if_neg noZero, place_join hs fits.accepted leads, place_join ht fits'.accepted leads]
  simp only [Bool.or_self, renameEntry, entryAt_of_short fits.short, entryAt_of_short fits'.short,
    there]
  rw [moveEntry, if_neg (by simp), if_neg (by simpa using different), unobstructed]

end Operations

end FileTree
end DiskQueue
