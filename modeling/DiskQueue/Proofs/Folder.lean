/-
Module: DiskQueue.Proofs.Folder
Purpose: What a path in a directory leads to, told from where the path of the
  directory leads to.
Trusted boundary: none
Main exports:
  FileTree.WellFormed, FileTree.folder?, FileTree.folder?_mono, FileTree.list_eq_ok_iff,
  FileTree.place_join, FileTree.find_join, FileTree.find_join_of_lost
-/
import DiskQueue.FileTree.Operations
import DiskQueue.Proofs.Paths
import Mathlib.Data.List.Induction

namespace DiskQueue

/-!
A path is followed anew for every call, through links that may lie anywhere, also in
the directory that it leads to. `folder?` is the directory that a path leads to at a
given moment. The path of an entry leads through the same places to the same directory,
and then to the name of the entry in it. Where the path of the directory leads to none,
the path of the entry leads to nothing.
-/

/-- Entries have names that paths can tell apart, and whatever has something below it
is a directory. -/
structure FileTree.WellFormed (tree : FileTree) : Prop where
  parent : ∀ {key : Key} {name : Name} {node : Node},
    tree.lookup (key ++ [name]) = some node → tree.lookup key = some .directory
  proper : ∀ {key : Key} {name : Name} {node : Node},
    tree.lookup (key ++ [name]) = some node → name.IsProper

namespace FileTree

variable {tree : FileTree} {current : Key}

/-- There is nothing in a tree that is empty. -/
theorem lookup_empty {key : Key} (h : key ≠ []) : empty.lookup key = none := by
  obtain ⟨name, rest, rfl⟩ := List.exists_cons_of_ne_nil h
  show (Branch.descend Branch.empty rest).value = none
  rw [Branch.descend_empty]
  rfl

theorem WellFormed.lookup_child (wf : tree.WellFormed) {key : Key}
    (h : tree.lookup key ≠ some .directory) (name : Name) : tree.lookup (key ++ [name]) = none := by
  cases found : tree.lookup (key ++ [name]) with
  | none => rfl
  | some node => exact absurd (wf.parent found) h

theorem WellFormed.lookup_below (wf : tree.WellFormed) {key : Key}
    (h : tree.lookup key ≠ some .directory) (name : Name) (more : Key) :
    tree.lookup (key ++ name :: more) = none := by
  induction more using List.reverseRecOn with
  | nil => exact wf.lookup_child h name
  | append_singleton more last ih =>
    have above : tree.lookup (key ++ name :: more) ≠ some .directory := by simp [ih]
    have child := wf.lookup_child above last
    simpa using child

theorem WellFormed.lookup_dropLast (wf : tree.WellFormed) {key : Key}
    (h : tree.lookup key = some .directory) : tree.lookup key.dropLast = some .directory := by
  rcases List.eq_nil_or_concat key with rfl | ⟨up, name, rfl⟩
  · rfl
  · rw [List.concat_eq_append] at h ⊢
    rw [List.dropLast_concat]
    exact wf.parent h

/-! ### A walk told by keys -/

/-- A place is determined by the names that lead to it. -/
theorem Position.ofKey_key (p : Position tree) : Position.ofKey tree p.key = p := by
  cases p with
  | mk up here here_eq =>
    subst here_eq
    simp [Position.ofKey, Position.key]

theorem Position.down_ofKey (tree : FileTree) (key : Key) (name : Name) :
    (Position.ofKey tree key).down name = .ofKey tree (key ++ [name]) := by
  rw [← Position.ofKey_key ((Position.ofKey tree key).down name), Position.key_down,
    Position.key_ofKey]

theorem Position.above_ofKey (tree : FileTree) (key : Key) :
    (Position.ofKey tree key).above = .ofKey tree key.dropLast := by
  simp [Position.above, Position.ofKey]

theorem Position.node?_ofKey (tree : FileTree) (key : Key) :
    (Position.ofKey tree key).node? = tree.lookup key := by
  rw [Position.node?_eq, Position.key_ofKey]

variable {intent : Intent} {jump : Key → Route → Except IoError Target} {slashed : Bool}

theorem walkFrom_nil (key : Key) :
    walkFrom intent jump slashed (.ofKey tree key) []
      = match tree.lookup key with
        | some node => .ok (.present key node)
        | none => .error .notFound := by
  rewrite [walkFrom, Position.node?_ofKey, Position.key_ofKey]
  rfl

theorem walkFrom_cons (key : Key) (name : Name) (rest : List Name) :
    walkFrom intent jump slashed (.ofKey tree key) (name :: rest)
      = if name = [Path.dot] then walkFrom intent jump slashed (.ofKey tree key) rest
        else if name = [Path.dot, Path.dot] then
          walkFrom intent jump slashed (.ofKey tree key.dropLast) rest
        else if rest = [] ∧ slashed = true ∧ intent = .making then .error .isDirectory
        else if maxNameLength < name.length then .error .nameTooLong
        else
          match tree.lookup (key ++ [name]) with
          | none => if rest = [] then .ok (.absent key name) else .error .notFound
          | some .directory => walkFrom intent jump slashed (.ofKey tree (key ++ [name])) rest
          | some (.file content modified) =>
            if rest = [] ∧ slashed = false then
              .ok (.present (key ++ [name]) (.file content modified))
            else .error .notDirectory
          | some (.link target) => jump (origin key target) (routeThrough target ⟨rest, slashed⟩) := by
  rewrite [walkFrom, Position.down_ofKey, Position.above_ofKey, Position.node?_ofKey,
    Position.key_ofKey, Position.key_ofKey]
  rfl

/-- The first stretch of a walk, with the links that are left. -/
theorem walk_eq (tree : FileTree) (intent : Intent) (jumps : Nat) (key : Key) (way : Route) :
    walk tree intent jumps key way
      = walkFrom intent
          (match jumps with
            | 0 => fun _ _ => .error .linkLoop
            | jumps + 1 => walk tree intent jumps)
          way.slashed (.ofKey tree key) way.names := by
  cases jumps <;> rfl

/-! ### Walks that end at a directory -/

/-- A tree with all directories and links of another one. -/
def Holds (tree other : FileTree) : Prop :=
  ∀ key node, node.kind ≠ .file → other.lookup key = some node → tree.lookup key = some node

/-- Files are not passed on the way to a directory, and a slash at the end does not matter. -/
theorem walkFrom_mono {other : FileTree} (holds : Holds other tree) {goal : Key}
    {j₁ j₂ : Key → Route → Except IoError Target} {s₁ s₂ : Bool}
    (behind : ∀ key names s t, j₁ key ⟨names, s⟩ = .ok (.present goal .directory) →
      j₂ key ⟨names, t⟩ = .ok (.present goal .directory))
    (key : Key) (names : List Name)
    (h : walkFrom .finding j₁ s₁ (.ofKey tree key) names = .ok (.present goal .directory)) :
    walkFrom .finding j₂ s₂ (.ofKey other key) names = .ok (.present goal .directory) := by
  induction names generalizing key with
  | nil =>
    rw [walkFrom_nil] at h ⊢
    split at h
    · rename_i node found
      cases h
      rw [holds _ _ (by simp [Node.kind]) found]
    · cases h
  | cons name rest ih =>
    rw [walkFrom_cons] at h ⊢
    by_cases dot : name = [Path.dot]
    · rw [if_pos dot] at h ⊢
      exact ih key h
    rw [if_neg dot] at h ⊢
    by_cases dots : name = [Path.dot, Path.dot]
    · rw [if_pos dots] at h ⊢
      exact ih _ h
    rw [if_neg dots, if_neg (by simp)] at h ⊢
    by_cases long : maxNameLength < name.length
    · rw [if_pos long] at h
      cases h
    rw [if_neg long] at h ⊢
    split at h
    · split at h <;> cases h
    · rename_i found
      rw [holds _ _ (by simp [Node.kind]) found]
      exact ih _ h
    · split at h <;> cases h
    · rename_i target found
      rw [holds _ _ (by simp [Node.kind]) found]
      unfold routeThrough at h ⊢
      split at h
      · rename_i last
        simp only [if_pos last]
        exact behind _ _ _ _ h
      · rename_i more
        simp only [if_neg more]
        exact behind _ _ _ _ h

theorem walk_mono {other : FileTree} (holds : Holds other tree) {goal : Key} (jumps : Nat)
    (key : Key) (names : List Name) (s t : Bool)
    (h : walk tree .finding jumps key ⟨names, s⟩ = .ok (.present goal .directory)) :
    walk other .finding jumps key ⟨names, t⟩ = .ok (.present goal .directory) := by
  induction jumps generalizing key names s t with
  | zero =>
    rw [walk_eq] at h ⊢
    exact walkFrom_mono holds (fun _ _ _ _ impossible => by cases impossible) key names h
  | succ jumps ih =>
    rw [walk_eq] at h ⊢
    exact walkFrom_mono holds ih key names h

/-- The directory that a path leads to. -/
def folder? (tree : FileTree) (current : Key) (directory : Path) : Option Key :=
  match walk tree .finding maxJumps (origin current directory) ⟨steps directory, true⟩ with
  | .ok (.present key .directory) => some key
  | _ => none

theorem folder?_eq_some_iff {directory : Path} {key : Key} :
    tree.folder? current directory = some key ↔
      walk tree .finding maxJumps (origin current directory) ⟨steps directory, true⟩
        = .ok (.present key .directory) := by
  unfold folder?
  split
  · rename_i walked
    rw [walked]
    simp
  · rename_i other
    simp only [reduceCtorEq, false_iff]
    exact other key

/-- A path leads to the same directory in a tree with more directories and links. -/
theorem folder?_mono {other : FileTree} (holds : Holds other tree) {directory : Path} {key : Key}
    (h : tree.folder? current directory = some key) :
    other.folder? current directory = some key := by
  rw [folder?_eq_some_iff] at h ⊢
  exact walk_mono holds _ _ _ _ _ h

/-- What is found at the end of a path is a directory just if the path leads to it. -/
theorem locate_directory_iff {directory : Path} {key : Key} :
    locate tree current directory = .ok (key, .directory) ↔
      refusal? directory = none ∧ tree.folder? current directory = some key := by
  have same : ∀ s t, walk tree .finding maxJumps (origin current directory) ⟨steps directory, s⟩
        = .ok (.present key .directory) →
      walk tree .finding maxJumps (origin current directory) ⟨steps directory, t⟩
        = .ok (.present key .directory) :=
    walk_mono (fun _ _ _ found => found) _ _ _
  rw [folder?_eq_some_iff, locate, find]
  cases refusal? directory with
  | some e => simp
  | none =>
    simp only [true_and]
    constructor
    · intro h
      split at h
      · cases h
      · rename_i walked
        cases h
        exact same _ _ walked
      · cases h
    · intro h
      have walked : walk tree .finding maxJumps (origin current directory) (route directory)
          = .ok (.present key .directory) := same _ _ h
      rw [walked]

theorem list_eq_ok_iff {directory : Path} {entries : List (Name × EntryKind)} :
    list tree current directory = .ok entries ↔
      ∃ key, refusal? directory = none ∧ tree.folder? current directory = some key ∧
        entries = (tree.children key).map fun child => (child.1, child.2.kind) := by
  simp only [← and_assoc, ← locate_directory_iff]
  rw [list]
  constructor
  · intro h
    split at h
    · cases h
    · rename_i key located
      cases h
      exact ⟨key, located, rfl⟩
    · cases h
  · rintro ⟨key, located, rfl⟩
    rw [located]

/-! ### One name further

The walk to an entry is compared with the walk to its directory. Both follow the same
links, so the comparison is first made for one stretch between two links, assuming it
for what comes behind the next link, and then by induction on the links that are left. -/

/-- What a walk to a directory says about the walk to an entry in it: if the first one
ends somewhere, the second one goes on from there by the name of the entry, and if not,
the second one fails. -/
structure Leads (tree : FileTree) (intent : Intent) (slashed : Bool) (name : Name)
    (directory entry : Except IoError Target) : Prop where
  found : ∀ key node, directory = .ok (.present key node) →
    node = .directory ∧ tree.lookup key = some .directory ∧
      ∃ jump, entry = walkFrom intent jump slashed (.ofKey tree key) [name]
  lost : (∀ key node, directory ≠ .ok (.present key node)) → ∃ e, entry = .error e

theorem Leads.of_errors (tree : FileTree) (intent : Intent) (slashed : Bool) (name : Name)
    (e f : IoError) : Leads tree intent slashed name (.error e) (.error f) :=
  ⟨fun _ _ h => (by cases h), fun _ => ⟨f, rfl⟩⟩

/-- The comparison for one stretch. -/
theorem leads_walkFrom (wf : tree.WellFormed) {name : Name}
    {j₁ j₂ : Key → Route → Except IoError Target}
    (behind : ∀ key names, tree.lookup key = some .directory →
      Leads tree intent slashed name (j₁ key ⟨names, true⟩) (j₂ key ⟨names ++ [name], slashed⟩))
    (key : Key) (names : List Name) (start : tree.lookup key = some .directory) :
    Leads tree intent slashed name (walkFrom .finding j₁ true (.ofKey tree key) names)
      (walkFrom intent j₂ slashed (.ofKey tree key) (names ++ [name])) := by
  induction names generalizing key with
  | nil =>
    rw [walkFrom_nil, start]
    constructor
    · intro k node h
      cases h
      exact ⟨rfl, start, j₂, rfl⟩
    · intro lost
      exact absurd rfl (lost key .directory)
  | cons n rest ih =>
    have more : rest ++ [name] ≠ [] := by simp
    have found₁ : ¬ (rest = [] ∧ true = true ∧ Intent.finding = .making) := by simp
    have found₂ : ¬ (rest ++ [name] = [] ∧ slashed = true ∧ intent = .making) :=
      fun made => more made.1
    rw [List.cons_append, walkFrom_cons, walkFrom_cons]
    by_cases dot : n = [Path.dot]
    · rw [if_pos dot, if_pos dot]
      exact ih key start
    rw [if_neg dot, if_neg dot]
    by_cases dots : n = [Path.dot, Path.dot]
    · rw [if_pos dots, if_pos dots]
      exact ih _ (wf.lookup_dropLast start)
    rw [if_neg dots, if_neg dots, if_neg found₁, if_neg found₂]
    by_cases long : maxNameLength < n.length
    · rw [if_pos long, if_pos long]
      exact Leads.of_errors _ _ _ _ _ _
    rw [if_neg long, if_neg long]
    cases child : tree.lookup (key ++ [n]) with
    | none =>
      simp only [if_neg more]
      refine ⟨?_, fun _ => ⟨_, rfl⟩⟩
      intro k node h
      split at h <;> cases h
    | some node =>
      cases node with
      | directory => exact ih _ child
      | file content modified =>
        simp only [more, Bool.true_eq_false, and_false, false_and, if_false]
        exact Leads.of_errors _ _ _ _ _ _
      | link target =>
        have onward : routeThrough target ⟨rest ++ [name], slashed⟩
            = ⟨(steps target ++ rest) ++ [name], slashed⟩ := by
          simp [routeThrough]
        have onwardDirectory : routeThrough target ⟨rest, true⟩ = ⟨steps target ++ rest, true⟩ := by
          unfold routeThrough
          split
          · rename_i last
            simp [show rest = [] from last]
          · rfl
        simp only [onward, onwardDirectory]
        apply behind
        unfold origin
        split
        · rfl
        · exact start

theorem leads_walk (wf : tree.WellFormed) (name : Name) (jumps : Nat) (key : Key)
    (names : List Name) (start : tree.lookup key = some .directory) :
    Leads tree intent slashed name (walk tree .finding jumps key ⟨names, true⟩)
      (walk tree intent jumps key ⟨names ++ [name], slashed⟩) := by
  induction jumps generalizing key names with
  | zero =>
    rw [walk_eq, walk_eq]
    exact leads_walkFrom wf (fun _ _ _ => Leads.of_errors _ _ _ _ _ _) key names start
  | succ jumps ih =>
    rw [walk_eq, walk_eq]
    exact leads_walkFrom wf ih key names start

/-- A walk from a directory leads to a directory if a slash stands at the end. -/
theorem leads_folder (wf : tree.WellFormed) (here : tree.lookup current = some .directory)
    (intent : Intent) (name : Name) (directory : Path) :
    Leads tree intent false name
      (walk tree .finding maxJumps (origin current directory) ⟨steps directory, true⟩)
      (walk tree intent maxJumps (origin current directory) ⟨steps directory ++ [name], false⟩) := by
  apply leads_walk wf name _ _ _
  unfold origin
  split
  · rfl
  · exact here

/-- Where a path leads to no directory, it leads to nothing at all. -/
theorem folder?_eq_none_iff (wf : tree.WellFormed) (here : tree.lookup current = some .directory)
    {directory : Path} :
    tree.folder? current directory = none ↔
      ∀ key node, walk tree .finding maxJumps (origin current directory) ⟨steps directory, true⟩
        ≠ .ok (.present key node) := by
  constructor
  · intro h key node walked
    obtain ⟨rfl, -⟩ := (leads_folder wf here .finding [] directory).found _ _ walked
    rw [folder?_eq_some_iff.mpr walked] at h
    cases h
  · intro h
    cases found : tree.folder? current directory with
    | none => rfl
    | some key => exact absurd (folder?_eq_some_iff.mp found) (h key .directory)

/-! ### Directories on the way -/

/-- Names of a way that ends earlier, some single dots left out. -/
inductive OnTheWay : List Name → List Name → Prop
  | here (names : List Name) : OnTheWay names []
  | dot {names shorter : List Name} : OnTheWay names shorter →
      OnTheWay ([Path.dot] :: names) shorter
  | step (name : Name) {names shorter : List Name} : OnTheWay names shorter →
      OnTheWay (name :: names) (name :: shorter)

theorem OnTheWay.append (start : List Name) {names shorter : List Name}
    (h : OnTheWay names shorter) : OnTheWay (start ++ names) (start ++ shorter) := by
  induction start with
  | nil => exact h
  | cons name start ih => exact .step name ih

theorem onTheWay_filter (names : List Name) :
    OnTheWay names (names.filter fun name => name ≠ [Path.dot]) := by
  induction names with
  | nil => exact .here _
  | cons name names ih =>
    by_cases dot : name = [Path.dot]
    · subst dot
      rw [List.filter_cons_of_neg (by simp)]
      exact ih.dot
    · rw [List.filter_cons_of_pos (by simpa using dot)]
      exact ih.step name

theorem OnTheWay.shorter {names longer shorter : List Name} (h : OnTheWay names longer)
    (start : shorter <+: longer) : OnTheWay names shorter := by
  induction h generalizing shorter with
  | here => exact List.prefix_nil.mp start ▸ .here _
  | dot _ ih => exact (ih start).dot
  | step name _ ih =>
    cases shorter with
    | nil => exact .here _
    | cons other shorter =>
      obtain ⟨rfl, rest⟩ := List.cons_prefix_cons.mp start
      exact (ih rest).step other

theorem walkFrom_onTheWay (wf : tree.WellFormed) {goal : Key}
    {j₁ j₂ : Key → Route → Except IoError Target}
    (behind : ∀ key names shorter, tree.lookup key = some .directory → OnTheWay names shorter →
      j₁ key ⟨names, true⟩ = .ok (.present goal .directory) →
      ∃ passed, j₂ key ⟨shorter, true⟩ = .ok (.present passed .directory))
    {names shorter : List Name} (way : OnTheWay names shorter) (key : Key)
    (start : tree.lookup key = some .directory)
    (h : walkFrom .finding j₁ true (.ofKey tree key) names = .ok (.present goal .directory)) :
    ∃ passed, walkFrom .finding j₂ true (.ofKey tree key) shorter
      = .ok (.present passed .directory) := by
  induction way generalizing key with
  | here => exact ⟨key, by rw [walkFrom_nil, start]⟩
  | dot _ ih =>
    rw [walkFrom_cons, if_pos rfl] at h
    exact ih key start h
  | @step name names shorter way ih =>
    rw [walkFrom_cons] at h ⊢
    by_cases dot : name = [Path.dot]
    · rw [if_pos dot] at h ⊢
      exact ih key start h
    rw [if_neg dot] at h ⊢
    by_cases dots : name = [Path.dot, Path.dot]
    · rw [if_pos dots] at h ⊢
      exact ih _ (wf.lookup_dropLast start) h
    rw [if_neg dots, if_neg (by simp)] at h ⊢
    by_cases long : maxNameLength < name.length
    · rw [if_pos long] at h
      cases h
    rw [if_neg long] at h ⊢
    cases child : tree.lookup (key ++ [name]) with
    | none =>
      rw [child] at h
      dsimp only at h
      split at h <;> cases h
    | some node =>
      rw [child] at h
      cases node with
      | directory => exact ih _ child h
      | file content modified =>
        dsimp only at h
        split at h <;> cases h
      | link target =>
        have whole : ∀ rest, routeThrough target ⟨rest, true⟩ = ⟨steps target ++ rest, true⟩ := by
          intro rest
          unfold routeThrough
          split
          · rename_i last
            simp [show rest = [] from last]
          · rfl
        dsimp only at h ⊢
        rw [whole] at h ⊢
        refine behind _ _ _ ?_ (way.append _) h
        unfold origin
        split
        · rfl
        · exact start

theorem walk_onTheWay (wf : tree.WellFormed) {goal : Key} (jumps : Nat) (key : Key)
    {names shorter : List Name} (start : tree.lookup key = some .directory)
    (way : OnTheWay names shorter)
    (h : walk tree .finding jumps key ⟨names, true⟩ = .ok (.present goal .directory)) :
    ∃ passed, walk tree .finding jumps key ⟨shorter, true⟩ = .ok (.present passed .directory) := by
  induction jumps generalizing key names shorter with
  | zero =>
    rw [walk_eq] at h
    simp only [walk_eq]
    refine walkFrom_onTheWay wf ?_ way key start h
    intro _ _ _ _ _ impossible
    cases impossible
  | succ jumps ih =>
    rw [walk_eq] at h
    simp only [walk_eq]
    exact walkFrom_onTheWay wf (fun key _ _ start way => ih key start way) way key start h

/-- Where a path leads to a directory, so do the paths of its first names. -/
theorem folder?_above (wf : tree.WellFormed) (here : tree.lookup current = some .directory)
    {directory : Path} {key : Key} (h : tree.folder? current directory = some key)
    {ns : List Name} (start : ns <+: Path.names directory) (nonempty : ns ≠ []) :
    ∃ above, tree.folder? current (Path.top directory ++ Path.ofNames ns) = some above := by
  have proper : ∀ name ∈ ns, name ≠ [] ∧ Path.slash ∉ name :=
    fun name mem => Path.mem_names (start.subset mem)
  have filtered : Path.names directory
      = (steps directory).filter fun name => name ≠ [Path.dot] := by
    simp only [Path.names, steps, List.filter_filter, Bool.and_comm, ne_eq, decide_not,
      Bool.decide_and]
  have way := (onTheWay_filter (steps directory)).shorter (filtered ▸ start)
  have same : origin current (Path.top directory ++ Path.ofNames ns) = origin current directory := by
    rw [origin, origin, Path.isAbsolute_top_append directory nonempty proper]
  simp only [folder?_eq_some_iff, same, Path.steps_top_append directory nonempty proper] at h ⊢
  refine walk_onTheWay wf _ _ ?_ way h
  unfold origin
  split
  · rfl
  · exact here

/-- A directory cannot be made where a path leads to one, because it is there already. -/
theorem makeDirectory_of_folder (wf : tree.WellFormed)
    (here : tree.lookup current = some .directory) {directory : Path} {key : Key}
    (h : tree.folder? current directory = some key) :
    ∃ e, makeDirectory tree current directory = .error e ∧
      (refusal? directory = none → e = .alreadyExists) := by
  rw [folder?_eq_some_iff] at h
  have start : tree.lookup (origin current directory) = some .directory := by
    unfold origin
    split
    · rfl
    · exact here
  unfold makeDirectory place
  cases refusal? directory with
  | some e => exact ⟨e, rfl, by simp⟩
  | none =>
    refine ⟨.alreadyExists, ?_, fun _ => rfl⟩
    rcases List.eq_nil_or_concat (steps directory) with empty | ⟨above, name, eq⟩
    · rw [empty] at h
      simp only [route, empty, List.dropLast_nil, List.getLast?_nil, Option.filter_none, h]
    · rw [List.concat_eq_append] at eq
      rw [eq] at h
      have leads : Leads tree .finding true name _ _ :=
        leads_walk wf name maxJumps (origin current directory) above start
      simp only [route, eq, List.dropLast_concat, List.getLast?_concat]
      cases walked : walk tree .finding maxJumps (origin current directory) ⟨above, true⟩ with
      | error e =>
        obtain ⟨e, failed⟩ := leads.lost (by simp [walked])
        cases h.symm.trans failed
      | ok target =>
        cases target with
        | absent up missing =>
          obtain ⟨e, failed⟩ := leads.lost (by simp [walked])
          cases h.symm.trans failed
        | present up node =>
          obtain ⟨-, -, jump, onward⟩ := leads.found up node walked
          by_cases dots : isDots name = true
          · simp only [Option.filter, dots, Bool.not_true, Bool.false_eq_true, if_false]
          · simp only [Option.filter, dots, Bool.not_false, if_true]
            simp only [isDots, Bool.or_eq_true, decide_eq_true_eq, not_or] at dots
            rw [h, walkFrom_cons, if_neg dots.1, if_neg dots.2, if_neg (by simp)] at onward
            by_cases long : maxNameLength < name.length
            · rw [if_pos long] at onward
              cases onward
            · rw [if_neg long] at onward
              unfold addEntry entryAt
              rw [if_neg long]
              cases there : tree.lookup (up ++ [name]) with
              | none =>
                rw [there] at onward
                dsimp only at onward
                split at onward <;> cases onward
              | some node => rfl

section Join

variable {directory : Path} {name : Name} {key : Key}

/-- The walk to an entry goes on from the directory that holds it. -/
theorem find_join (wf : tree.WellFormed) (here : tree.lookup current = some .directory)
    (hname : name.IsProper) (accepted : refusal? (directory.join name) = none)
    (folder : tree.folder? current directory = some key) (intent : Intent) :
    ∃ jump, find tree current intent (directory.join name)
      = walkFrom intent jump false (.ofKey tree key) [name] := by
  rw [find, accepted, Path.route_join directory hname, Path.origin_join directory hname]
  exact ((leads_folder wf here intent name directory).found _ _
    (folder?_eq_some_iff.mp folder)).2.2

/-- Without its directory an entry is not found, and could not be made either. -/
theorem find_join_of_lost (wf : tree.WellFormed) (here : tree.lookup current = some .directory)
    (hname : name.IsProper) (lost : tree.folder? current directory = none) (intent : Intent) :
    ∃ e, find tree current intent (directory.join name) = .error e := by
  rw [find, Path.route_join directory hname, Path.origin_join directory hname]
  split
  · exact ⟨_, rfl⟩
  · exact (leads_folder wf here intent name directory).lost
      ((folder?_eq_none_iff wf here).mp lost)

/-- The path of an entry names its place in the directory. -/
theorem place_join (hname : name.IsProper) (accepted : refusal? (directory.join name) = none)
    (folder : tree.folder? current directory = some key) :
    place tree current (directory.join name) = .ok ⟨key, some name, false⟩ := by
  have kept : ¬ isDots name = true := by
    simp [isDots, hname.dot, hname.dots]
  rw [place, accepted, Path.route_join directory hname, Path.origin_join directory hname]
  simp only [List.dropLast_concat, List.getLast?_concat]
  rw [folder?_eq_some_iff.mp folder]
  simp [Option.filter, kept]

theorem place_join_of_lost (wf : tree.WellFormed) (here : tree.lookup current = some .directory)
    (hname : name.IsProper) (lost : tree.folder? current directory = none) :
    ∃ e, place tree current (directory.join name) = .error e := by
  rw [place, Path.route_join directory hname, Path.origin_join directory hname]
  simp only [List.dropLast_concat]
  split
  · exact ⟨_, rfl⟩
  · split
    · exact ⟨_, rfl⟩
    · exact ⟨_, rfl⟩
    · rename_i walked
      exact absurd walked ((folder?_eq_none_iff wf here).mp lost _ _)

end Join

end FileTree
end DiskQueue
