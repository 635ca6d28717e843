/-
Module: DiskQueue.Proofs.OutputDirectory
Purpose: What making an output directory and writing payloads to it does to the files.
Trusted boundary: none
Main exports:
  FileTree.Grows, Program.grows_ensureDirectories, Command.payloadName, Host.Receives,
  FileTree.Wrote, Command.wrote_writeFile
-/
import DiskQueue.Command
import DiskQueue.Proofs.Fleet
import DiskQueue.Proofs.Renaming

namespace DiskQueue

open FileTree (Holds Sets Follows)

/-!
Making a directory and those above it puts directories where nothing stood, and changes nothing
else. A payload goes to the file of its attempt in the output directory: if the name is free or
belongs to a file, that file is emptied and filled; if it belongs to a directory, nothing happens.
Only a link could lead a payload elsewhere.
-/

variable {α : Type} {host after : Host}

/-! ### Directories that are added -/

namespace FileTree

variable {tree before mid after : FileTree} {current key : Key} {node : Node}

/-- Directories have been added where nothing stood. -/
structure Grows (before after : FileTree) : Prop where
  lookup : ∀ key, after.lookup key = before.lookup key ∨
    before.lookup key = none ∧ after.lookup key = some .directory
  wellFormed : before.WellFormed → after.WellFormed

theorem Grows.refl (tree : FileTree) : Grows tree tree := ⟨fun _ => .inl rfl, id⟩

theorem Grows.kept (grows : Grows before after) (there : before.lookup key = some node) :
    after.lookup key = some node := by
  rcases grows.lookup key with same | ⟨free, -⟩
  · rw [same, there]
  · cases free.symm.trans there

theorem Grows.trans (first : Grows before mid) (second : Grows mid after) : Grows before after := by
  refine ⟨?_, second.wellFormed ∘ first.wellFormed⟩
  intro key
  rcases first.lookup key with same | ⟨free, made⟩
  · rcases second.lookup key with same' | ⟨free', made⟩
    · exact .inl (same'.trans same)
    · exact .inr ⟨same.symm.trans free', made⟩
  · exact .inr ⟨free, second.kept made⟩

theorem Grows.holds (grows : Grows before after) (holds : Holds before tree) : Holds after tree :=
  fun key node notFile found => grows.kept (holds key node notFile found)

/-- No file is added and none is lost. -/
theorem Grows.file_iff (grows : Grows before after) {content : Bytes} {modified : Int} :
    after.lookup key = some (.file content modified)
      ↔ before.lookup key = some (.file content modified) := by
  refine ⟨?_, grows.kept⟩
  intro there
  rcases grows.lookup key with same | ⟨-, made⟩
  · rwa [same] at there
  · cases made.symm.trans there

theorem Grows.mem_listed_iff (grows : Grows before after) {folder : Key} {extension name : Name} :
    name ∈ Stored.listed after folder extension ↔ name ∈ Stored.listed before folder extension := by
  simp only [Stored.mem_listed, grows.file_iff]

/-- A name on the way of a path can belong to an entry if it is not made of dots. -/
theorem isProper_of_mem_steps {path : Path} {name : Name} (mem : name ∈ steps path)
    (kept : isDots name = false) : name.IsProper := by
  rw [steps, List.mem_filter, decide_eq_true_eq] at mem
  rw [isDots, Bool.or_eq_false_iff, decide_eq_false_iff_not, decide_eq_false_iff_not] at kept
  exact ⟨mem.2, Path.slash_notMem_of_mem_pieces mem.1, kept.1, kept.2⟩

/-- The place that a path names lies in a directory, and its name is one of an entry. -/
theorem place_eq_ok (wf : tree.WellFormed) (here : tree.lookup current = some .directory)
    {path : Path} {place' : Place} (h : place tree current path = .ok place') :
    tree.lookup place'.directory = some .directory ∧
      ∀ name, place'.name = some name → name.IsProper := by
  have start : tree.lookup (origin current path) = some .directory := by
    unfold origin
    split
    · rfl
    · exact here
  unfold place at h
  split at h
  · cases h
  dsimp only at h
  split at h
  · cases h
  · cases h
  rename_i key node walked
  cases h
  have leads : Leads tree .finding true [] _ _ :=
    leads_walk wf [] maxJumps (origin current path) (route path).names.dropLast start
  refine ⟨(leads.found key node walked).2.1, ?_⟩
  intro name named
  obtain ⟨last, kept⟩ := Option.filter_eq_some_iff.mp named
  exact isProper_of_mem_steps (List.mem_of_getLast? last) (by simpa using kept)

theorem grows_makeDirectory (wf : tree.WellFormed) (here : tree.lookup current = some .directory)
    {path : Path} (h : makeDirectory tree current path = .ok after) : Grows tree after := by
  unfold makeDirectory at h
  split at h
  · cases h
  · cases h
  rename_i directory name slashed placed
  obtain ⟨isFolder, proper⟩ := place_eq_ok wf here placed
  obtain ⟨-, free, sets⟩ := addEntry_eq_ok h
  refine ⟨?_, sets.wellFormed (by simp [free]) isFolder fun _ _ => proper name rfl⟩
  intro key
  by_cases own : key = directory ++ [name]
  · subst own
    exact .inr ⟨free, sets.lookup_self⟩
  · exact .inl (sets.lookup_other own)

end FileTree

open FileTree (Grows)

namespace Program

/-- A call that leaves the files as they are, or makes a directory. -/
def MakesDirectories (c : Call) : Prop := looks c = true ∨ ∃ path, c = .file (.makeDirectory path)

theorem grows_answer {c : Call} (may : MakesDirectories c) (wf : host.tree.WellFormed)
    (here : host.tree.lookup host.directory = some .directory) :
    Grows host.tree (host.answer c).2.tree := by
  rcases may with looking | ⟨path, rfl⟩
  · rw [tree_answer_of_looks looking]
    exact Grows.refl _
  · show Grows host.tree (host.operate (.makeDirectory path)).2.tree
    unfold Host.operate
    split
    · exact Grows.refl _
    · cases made : host.tree.makeDirectory host.directory path with
      | error e =>
        simpa [FileTree.perform, made, FileTree.changed, Host.counted] using Grows.refl host.tree
      | ok after =>
        simpa [FileTree.perform, made, FileTree.changed, Host.counted]
          using FileTree.grows_makeDirectory wf here made

theorem OnlyCalls.grows {p : Program α} (only : p.OnlyCalls MakesDirectories)
    (wf : host.tree.WellFormed) (here : host.tree.lookup host.directory = some .directory) :
    Grows host.tree (p.run host).2.tree := by
  induction p generalizing host with
  | done value => exact Grows.refl _
  | call c next ih =>
    have first := grows_answer only.1 wf here
    refine first.trans (ih _ (only.2 _) (first.wellFormed wf) ?_)
    rw [(Host.later_answer host c).1.directory]
    exact first.kept here

theorem readsOnly_isDirectory (path : Path) : (isDirectory path).ReadsOnly := by
  refine ⟨rfl, fun reply => ?_⟩
  cases reply <;> trivial

theorem onlyCalls_ensureDirectories (path : Path) :
    (ensureDirectories path).OnlyCalls MakesDirectories := by
  have making : ∀ path, (makeDirectory path).OnlyCalls MakesDirectories :=
    fun path => ⟨.inr ⟨path, rfl⟩, fun _ => trivial⟩
  have asking : ∀ path, (isDirectory path).OnlyCalls MakesDirectories :=
    fun path => (readsOnly_isDirectory path).onlyCalls fun _ => .inl
  have single : ∀ path, (ensureDirectory path).OnlyCalls MakesDirectories := by
    intro path
    refine (making path).bind fun reply => ?_
    cases reply with
    | ok done => trivial
    | error e =>
      refine (asking path).bind fun isOne => ?_
      cases isOne <;> trivial
  have several : ∀ top names path, (ensureFrom top names path).OnlyCalls MakesDirectories := by
    intro top names
    induction names with
    | nil => exact fun path => trivial
    | cons name above ih =>
      intro path
      refine (making path).bind fun reply => ?_
      cases reply with
      | ok done => trivial
      | error e =>
        dsimp only
        split
        · refine (ih _).bind fun made => ?_
          cases made with
          | ok done => exact single path
          | error e => trivial
        · refine (asking path).bind fun isOne => ?_
          cases isOne <;> trivial
  unfold ensureDirectories
  split
  · trivial
  · split
    · exact single path
    · exact several _ _ path

/-- Whether or not the directory is made, nothing is lost. -/
theorem grows_ensureDirectories (wf : host.tree.WellFormed)
    (here : host.tree.lookup host.directory = some .directory) (path : Path) :
    Grows host.tree ((ensureDirectories path).run host).2.tree :=
  (onlyCalls_ensureDirectories path).grows wf here

end Program

section Growing

variable {folder : Key} {directory : Path} (grows : Grows host.tree after.tree)
include grows

theorem Host.Offers.grow (h : host.Offers folder) (later : host.Later after) :
    after.Offers folder where
  wellFormed := grows.wellFormed h.wellFormed
  current := by
    rw [later.directory]
    exact grows.kept h.current
  isFolder := grows.kept h.isFolder

theorem Host.Reaches.grow (h : host.Reaches folder directory) (later : host.Later after) :
    after.Reaches folder directory := by
  unfold Host.Reaches at h ⊢
  rw [later.directory]
  exact FileTree.folder?_mono (fun _ _ _ => grows.kept) h

end Growing

/-! ### The files of payloads -/

namespace Command

/-- The name of the file for the payload of an attempt. -/
def payloadName (attempt : Nat) : Name :=
  Utf8.encode "payload-" ++ Decimal.padded 6 attempt ++ Utf8.encode ".bin"

theorem isProper_payloadName (attempt : Nat) : (payloadName attempt).IsProper := by
  have slashless : Path.slash ∉ payloadName attempt := by
    simp only [payloadName, List.mem_append, not_or]
    refine ⟨⟨by decide +kernel, ?_⟩, by decide +kernel⟩
    intro mem
    rcases FileNames.mem_padded mem with sign | digit
    · exact absurd sign (by decide)
    · exact absurd digit (by decide)
  have start : (Utf8.encode "payload-").length = 8 := by decide +kernel
  have long : 8 ≤ (payloadName attempt).length := by
    simp only [payloadName, List.length_append, start]
    omega
  refine ⟨?_, slashless, ?_, ?_⟩ <;>
  · intro short
    rw [short] at long
    exact absurd long (by decide)

/-- Every attempt has a file of its own. -/
theorem payloadName_injective {a b : Nat} (h : payloadName a = payloadName b) : a = b := by
  have numbers := List.append_cancel_left (List.append_cancel_right h)
  exact_mod_cast FileNames.padded_injective numbers

/-- The file of a payload is neither a record nor one that is being read. -/
theorem payloadName_ne_withExtension (attempt : Nat) (base : Name) {extension : Name}
    (known : extension ∈ FileNames.extensions) :
    payloadName attempt ≠ FileNames.withExtension base extension := by
  intro same
  have length : (Utf8.encode ".bin").length = (Path.dot :: extension).length := by
    rw [List.length_cons, FileNames.length_extension known]
    decide +kernel
  have ends := (List.append_inj' same length).2
  have other : ∀ extension ∈ FileNames.extensions, Utf8.encode ".bin" ≠ Path.dot :: extension := by
    decide +kernel
  exact other extension known ends

end Command

open Command (payloadName isProper_payloadName)

variable {target : Key} {output : Path} {name : Name}

/-- The path of the output directory leads to the folder, or to no directory at all. No name of
a payload in the folder belongs to a link. -/
structure Host.Receives (target : Key) (output : Path) (host : Host) : Prop where
  serves : host.Serves target output
  plain : host.Reaches target output → ∀ attempt destination,
    host.tree.lookup (target ++ [payloadName attempt]) ≠ some (.link destination)

/-- No link is added by changes to the files of a folder. -/
theorem Host.Receives.follow {changed : Key} (h : host.Receives target output)
    (later : host.Later after) (follows : Follows changed host.tree after.tree) :
    after.Receives target output where
  serves := h.serves.follow later follows
  plain reaches attempt destination there := by
    unfold Host.Reaches at reaches
    rw [later.directory] at reaches
    exact h.plain (follows.folder? reaches) attempt destination (follows.links _ _ there)

/-- A directory that has just been made receives payloads. -/
theorem Host.Receives.of_grown (wf : host.tree.WellFormed)
    (here : host.tree.lookup host.directory = some .directory)
    (free : host.tree.lookup target = none) (grows : Grows host.tree after.tree)
    (later : host.Later after) (made : after.tree.lookup target = some .directory)
    (reaches : after.Reaches target output) : after.Receives target output where
  serves := Host.Offers.serves
    ⟨grows.wellFormed wf, by rw [later.directory]; exact grows.kept here, made⟩ reaches
  plain _ attempt destination there := by
    have absent : host.tree.lookup target ≠ some .directory := by simp [free]
    have nothing := wf.lookup_child absent (payloadName attempt)
    rcases grows.lookup (target ++ [payloadName attempt]) with same | ⟨-, directory⟩
    · cases (same.trans nothing).symm.trans there
    · cases directory.symm.trans there

/-! ### Writing a payload -/

namespace FileTree

variable {before after : FileTree} {content : Bytes} {result : Except IoError Unit}

/-- A directory in the place of a file is refused. -/
theorem createEmpty_join_of_noLink {tree : FileTree} {current : Key} {directory : Path} {now : Int}
    (wf : tree.WellFormed) (here : tree.lookup current = some .directory) (hname : name.IsProper)
    (noLink : ∀ key, tree.folder? current directory = some key → ∀ destination,
      tree.lookup (key ++ [name]) ≠ some (.link destination))
    (h : createEmpty tree current now (directory.join name) = .ok after) :
    ∃ folder, tree.folder? current directory = some folder ∧ tree.IsPlain folder name ∧
      Sets folder name (some (.file [] now)) tree after := by
  have plain : ∀ key, tree.folder? current directory = some key → tree.IsPlain key name := by
    intro key leads node there
    unfold createEmpty at h
    rcases find_join_cases wf here directory hname .making with
      ⟨e, walked⟩ | ⟨folder, jump, -, leads', walked⟩
    · rw [walked] at h
      cases h
    · cases leads.symm.trans leads'
      rw [walked, there] at h
      cases node with
      | directory => cases h
      | link destination => exact absurd there (noLink key leads destination)
      | file content modified => rfl
  obtain ⟨folder, leads, -, sets⟩ := createEmpty_join wf here hname plain h
  exact ⟨folder, leads, plain folder leads, sets⟩

/-- What writing to a file of a folder comes to. A file that was emptied and not filled is a
failure as well. -/
inductive Wrote (target : Key) (name : Name) (content : Bytes) (before after : FileTree) :
    Except IoError Unit → Prop
  | refused (e : IoError) (same : after = before) :
      Wrote target name content before after (.error e)
  | emptied (e : IoError) (plain : before.IsPlain target name) (modified : Int)
      (sets : Sets target name (some (.file [] modified)) before after) :
      Wrote target name content before after (.error e)
  | written (plain : before.IsPlain target name) (modified : Int)
      (sets : Sets target name (some (.file content modified)) before after) :
      Wrote target name content before after (.ok ())

/-- Nothing has changed, or one file. -/
theorem Wrote.sets (h : Wrote target name content before after result) :
    after = before ∨ before.IsPlain target name ∧
      ∃ bytes modified, Sets target name (some (.file bytes modified)) before after := by
  cases h with
  | refused e same => exact .inl same
  | emptied e plain modified sets => exact .inr ⟨plain, [], modified, sets⟩
  | written plain modified sets => exact .inr ⟨plain, content, modified, sets⟩

theorem Wrote.lookup_other (h : Wrote target name content before after result) {key : Key}
    (other : key ≠ target ++ [name]) : after.lookup key = before.lookup key := by
  rcases h.sets with rfl | ⟨-, bytes, modified, sets⟩
  · rfl
  · exact sets.lookup_other other

theorem Wrote.follows (h : Wrote target name content before after result)
    (here : before.lookup target = some .directory) (proper : name.IsProper) :
    Follows target before after := by
  rcases h.sets with rfl | ⟨plain, bytes, modified, sets⟩
  · exact Follows.refl _ _
  · refine sets.follows (fun found => by simpa [Node.kind] using plain _ found) here ?_
    rintro node ⟨⟩
    exact ⟨rfl, proper⟩

/-- Directories and links stay where they are. -/
theorem Wrote.holds (h : Wrote target name content before after result) {tree : FileTree}
    (holds : Holds before tree) : Holds after tree := by
  rcases h.sets with rfl | ⟨plain, bytes, modified, sets⟩
  · exact holds
  · intro key node notFile found
    have kept := holds key node notFile found
    rw [sets.lookup_other]
    · exact kept
    · rintro rfl
      exact notFile (plain _ kept)

end FileTree

open FileTree (Wrote)

namespace Command

/-- A payload goes to the file of its attempt or nowhere. -/
theorem wrote_writeFile (receives : host.Receives target output) (attempt : Nat)
    (content : Bytes) :
    Wrote target (payloadName attempt) content host.tree
      ((Program.writeFile (payloadPath output attempt) content).run host).2.tree
      ((Program.writeFile (payloadPath output attempt) content).run host).1 := by
  have serves := receives.serves
  have proper := isProper_payloadName attempt
  have met : Program.Meets (fun _ => True)
      (fun result after => Wrote target (payloadName attempt) content host.tree after.tree result)
      (Program.writeFile (payloadPath output attempt) content) host := by
    apply Program.Meets.file trivial (by simp)
    · intro e after _ _ same _
      exact Program.Meets.done trivial (.refused e same)
    rintro ⟨⟩ emptied later performed
    obtain ⟨key, leads, plain, sets⟩ :=
      FileTree.createEmpty_join_of_noLink serves.wellFormed serves.current proper
        (fun key leads => serves.leads key leads ▸ receives.plain (serves.leads key leads ▸ leads)
          attempt)
        (FileTree.changed_eq_ok performed)
    cases serves.leads key leads
    have follows := sets.follows (fun found => by simpa [Node.kind] using plain _ found)
      serves.isFolder (by rintro node ⟨⟩; exact ⟨rfl, proper⟩)
    have filled : Program.Meets (fun _ => True)
        (fun result after => Wrote target (payloadName attempt) content host.tree after.tree result)
        (Program.append (output.join (payloadName attempt)) content >>= pure) emptied := by
      apply Program.Meets.append (serves.follow later follows) trivial proper sets.lookup_self
      · exact fun _ _ _ => trivial
      · intro e after _ same
        exact Program.Meets.done trivial (.emptied e plain _ (by rwa [same]))
      · intro after _ filled
        exact Program.Meets.done trivial (.written plain _ (sets.trans filled))
    rwa [bind_pure] at filled
  exact met.run

end Command
end DiskQueue
