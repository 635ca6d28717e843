/-
Module: DiskQueue.Proofs.Serving
Purpose: The calls that a queue makes on the files of its directory, one rule for
  each of them.
Trusted boundary: none
Main exports:
  Host.Serves, Host.Serves.follow, Program.Meets.createNew, Program.Meets.append,
  Program.Meets.rename, Program.Meets.stat, Program.Meets.read, Program.Meets.list
-/
import DiskQueue.Proofs.Entries
import DiskQueue.Proofs.Outcomes

namespace DiskQueue

open FileTree (Fits Sets Moves Follows)

/-- The path leads to the folder, or to no directory at all. -/
structure Host.Serves (folder : Key) (directory : Path) (host : Host) : Prop where
  wellFormed : host.tree.WellFormed
  current : host.tree.lookup host.directory = some .directory
  isFolder : host.tree.lookup folder = some .directory
  leads : ∀ key, host.tree.folder? host.directory directory = some key → key = folder

/-- The path leads to the folder. -/
def Host.Reaches (folder : Key) (directory : Path) (host : Host) : Prop :=
  host.tree.folder? host.directory directory = some folder

instance (folder : Key) (directory : Path) (host : Host) : Decidable (host.Reaches folder directory) :=
  inferInstanceAs (Decidable (host.tree.folder? host.directory directory = some folder))

variable {folder : Key} {directory : Path} {host after : Host} {name : Name}

/-- Changes to the files of a folder, this or another one, do not make a path lead elsewhere. -/
theorem Host.Serves.follow {changed : Key} (h : host.Serves folder directory)
    (later : host.Later after) (follows : Follows changed host.tree after.tree) :
    after.Serves folder directory where
  wellFormed := follows.wellFormed h.wellFormed
  current := by
    rw [later.directory]
    exact (follows.directories _).mpr h.current
  isFolder := (follows.directories _).mpr h.isFolder
  leads key found := by
    rw [later.directory] at found
    exact h.leads key (follows.folder? found)

theorem Host.Serves.unchanged (h : host.Serves folder directory) (later : host.Later after)
    (same : after.tree = host.tree) : after.Serves folder directory := by
  have follows : Follows folder host.tree after.tree := same ▸ Follows.refl _ _
  exact h.follow later follows

theorem Host.Reaches.follow (h : host.Reaches folder directory) (later : host.Later after)
    (follows : Follows folder host.tree after.tree)
    (none : ∀ name target, host.tree.lookup (folder ++ [name]) ≠ some (.link target)) :
    after.Reaches folder directory := by
  unfold Host.Reaches at h ⊢
  rw [later.directory]
  exact follows.folder?_of_plain none h

theorem Host.Reaches.sets {node? : Option Node} (h : host.Reaches folder directory)
    (later : host.Later after) (plain : host.tree.IsPlain folder name)
    (sets : Sets folder name node? host.tree after.tree) : after.Reaches folder directory := by
  unfold Host.Reaches at h ⊢
  rw [later.directory]
  exact sets.folder?_of_plain plain h

theorem Host.Later.reaches_iff (later : host.Later after) (same : after.tree = host.tree) :
    after.Reaches folder directory ↔ host.Reaches folder directory := by
  unfold Host.Reaches
  rw [later.directory, same]

namespace Program

variable {α : Type} {cut : FileTree → Prop} {post : α → Host → Prop}

section Rules

variable (s : host.Serves folder directory) (here : cut host.tree)
include s here

theorem Meets.createNew {f : Except IoError Unit → Program α} (hname : name.IsProper)
    (failed : ∀ e after, host.Later after → after.tree = host.tree →
      Meets cut post (f (.error e)) after)
    (made : ∀ after, host.Later after → host.Reaches folder directory → Fits directory name →
      host.tree.lookup (folder ++ [name]) = none →
      Sets folder name (some (.file [] (host.clock host.calls))) host.tree after.tree →
      Meets cut post (f (.ok ())) after) :
    Meets cut post (createNew (directory.join name) >>= f) host := by
  refine Meets.file here (by simp) (fun e after later _ same _ => failed e after later same) ?_
  rintro ⟨⟩ after later performed
  obtain ⟨key, found, fits, free, sets⟩ :=
    FileTree.createNew_join s.wellFormed s.current hname (FileTree.changed_eq_ok performed)
  cases s.leads key found
  exact made after later found fits free sets

/-- A name that is free, or belongs to a file, belongs to an empty file afterwards. -/
theorem Meets.createEmpty {f : Except IoError Unit → Program α} (hname : name.IsProper)
    (plain : host.tree.IsPlain folder name)
    (failed : ∀ e after, host.Later after → after.tree = host.tree →
      (host.Faultless → host.Reaches folder directory → ¬ Fits directory name) →
      Meets cut post (f (.error e)) after)
    (made : ∀ after, host.Later after → host.Reaches folder directory →
      Sets folder name (some (.file [] (host.clock host.calls))) host.tree after.tree →
      Meets cut post (f (.ok ())) after) :
    Meets cut post (createEmpty (directory.join name) >>= f) host := by
  apply Meets.file here (by simp)
  · intro e after later _ same why
    apply failed e after later same
    intro faultless reaches fits
    obtain ⟨tree, done⟩ :=
      FileTree.createEmpty_of_plain s.wellFormed s.current hname fits reaches plain
    have result := why (faultless _ _)
    rw [FileTree.perform, done] at result
    cases result
  · rintro ⟨⟩ after later performed
    obtain ⟨key, found, -, sets⟩ :=
      FileTree.createEmpty_join s.wellFormed s.current hname
        (fun key found => s.leads key found ▸ plain) (FileTree.changed_eq_ok performed)
    cases s.leads key found
    exact made after later found sets

/-- Bytes are put at the end of a file, at a cut only some of them. -/
theorem Meets.append {f : Except IoError Unit → Program α} {content : Bytes}
    (hname : name.IsProper) {start : Bytes} {modified : Int}
    (there : host.tree.lookup (folder ++ [name]) = some (.file start modified))
    (partly : ∀ count tree, Sets folder name
      (some (.file (start ++ content.take count) (host.clock host.calls))) host.tree tree →
      cut tree)
    (failed : ∀ e after, host.Later after → after.tree = host.tree →
      Meets cut post (f (.error e)) after)
    (appended : ∀ after, host.Later after →
      Sets folder name (some (.file (start ++ content) (host.clock host.calls))) host.tree
        after.tree →
      Meets cut post (f (.ok ())) after) :
    Meets cut post (append (directory.join name) content >>= f) host := by
  have plain : host.tree.IsPlain folder name := FileTree.isPlain_of_file there
  have sets : ∀ {bytes tree},
      host.tree.append host.directory (host.clock host.calls) (directory.join name) bytes
        = .ok tree →
      Sets folder name (some (.file (start ++ bytes) (host.clock host.calls))) host.tree tree := by
    intro bytes tree done
    obtain ⟨key, start', modified', found, there', sets⟩ :=
      FileTree.append_join s.wellFormed s.current hname
        (fun key found => s.leads key found ▸ plain) done
    cases s.leads key found
    rw [there] at there'
    cases there'
    exact sets
  refine Meets.file here ?_ (fun e after later _ same _ => failed e after later same) ?_
  · rintro path bytes count tree ⟨⟩ done
    exact partly count tree (sets done)
  · rintro ⟨⟩ after later performed
    exact appended after later (sets (FileTree.changed_eq_ok performed))

/-- A file gets another name, in the place of what had that name. -/
theorem Meets.rename {f : Except IoError Unit → Program α} {source target : Name}
    (hs : source.IsProper) (ht : target.IsProper) (different : source ≠ target)
    (plain : host.tree.IsPlain folder source)
    (failed : ∀ e after, host.Later after → after.tree = host.tree →
      (host.Steady → host.Reaches folder directory → Fits directory source →
        Fits directory target → host.tree.lookup (folder ++ [target]) ≠ some .directory →
        host.tree.lookup (folder ++ [source]) = none) →
      Meets cut post (f (.error e)) after)
    (renamed : ∀ after content modified, host.Later after → host.Reaches folder directory →
      Fits directory source → Fits directory target →
      host.tree.lookup (folder ++ [source]) = some (.file content modified) →
      host.tree.lookup (folder ++ [target]) ≠ some .directory →
      Moves folder source target host.tree after.tree →
      Meets cut post (f (.ok ())) after) :
    Meets cut post (rename (directory.join source) (directory.join target) >>= f) host := by
  apply Meets.file here (by simp)
  · intro e after later _ same why
    apply failed e after later same
    intro steady reaches fits fits' notDirectory
    cases there : host.tree.lookup (folder ++ [source]) with
    | none => rfl
    | some node =>
      exfalso
      cases node with
      | directory => exact absurd (plain _ there) (by simp [Node.kind])
      | link path => exact absurd (plain _ there) (by simp [Node.kind])
      | file content modified =>
        obtain ⟨tree, done⟩ :=
          FileTree.rename_of_file hs ht different fits fits' reaches there notDirectory
        have result := why (steady _ _ (by simp))
        rw [FileTree.perform, done] at result
        cases result
  · rintro ⟨⟩ after later performed
    obtain ⟨key, content, modified, found, fits, fits', there, notDirectory, moves⟩ :=
      FileTree.rename_join s.wellFormed s.current hs ht different
        (fun key found => s.leads key found ▸ plain) (FileTree.changed_eq_ok performed)
    cases s.leads key found
    exact renamed after content modified later found fits fits' there notDirectory moves

/-- An entry that is no directory is gone afterwards. -/
theorem Meets.remove {f : Except IoError Unit → Program α} (hname : name.IsProper)
    (failed : ∀ e after, host.Later after → after.tree = host.tree →
      (host.fault host.calls (.remove (directory.join name)) = none →
        host.Reaches folder directory → Fits directory name →
        ∀ node, host.tree.lookup (folder ++ [name]) = some node → node = .directory) →
      Meets cut post (f (.error e)) after)
    (removed : ∀ after node, host.Later after →
      host.tree.lookup (folder ++ [name]) = some node → node ≠ .directory →
      Sets folder name none host.tree after.tree →
      Meets cut post (f (.ok ())) after) :
    Meets cut post (remove (directory.join name) >>= f) host := by
  apply Meets.file here (by simp)
  · intro e after later _ same why
    apply failed e after later same
    intro clear reaches fits node there
    by_contra notDirectory
    obtain ⟨tree, done⟩ := FileTree.remove_of_entry hname fits reaches there notDirectory
    have result := why clear
    rw [FileTree.perform, done] at result
    cases result
  · rintro ⟨⟩ after later performed
    obtain ⟨key, node, found, -, there, notDirectory, sets⟩ :=
      FileTree.remove_join s.wellFormed s.current hname (FileTree.changed_eq_ok performed)
    cases s.leads key found
    exact removed after node later there notDirectory sets

theorem Meets.stat {f : Except IoError Stat → Program α} (hname : name.IsProper)
    (plain : host.tree.IsPlain folder name)
    (failed : ∀ e after, host.Later after → after.calls = host.calls + 1 →
      after.tree = host.tree →
      (host.fault host.calls (.stat (directory.join name)) = none →
        host.Reaches folder directory → Fits directory name →
        host.tree.lookup (folder ++ [name]) = none) →
      Meets cut post (f (.error e)) after)
    (found : ∀ after content modified, host.Later after → after.tree = host.tree →
      host.tree.lookup (folder ++ [name]) = some (.file content modified) →
      Meets cut post (f (.ok ⟨.file, content.length, modified⟩)) after) :
    Meets cut post (stat (directory.join name) >>= f) host := by
  apply Meets.file here (by simp)
  · intro e after later calls same why
    apply failed e after later calls same
    intro clear reaches fits
    cases there : host.tree.lookup (folder ++ [name]) with
    | none => rfl
    | some node =>
      exfalso
      cases node with
      | directory => exact absurd (plain _ there) (by simp [Node.kind])
      | link path => exact absurd (plain _ there) (by simp [Node.kind])
      | file content modified =>
        have result := why clear
        rw [FileTree.perform,
          FileTree.stat_of_file s.wellFormed s.current hname fits reaches there] at result
        cases result
  · intro result after later performed
    have done : host.tree.stat host.directory (directory.join name) = .ok result :=
      congrArg Prod.fst performed
    have same : host.tree = after.tree := congrArg Prod.snd performed
    obtain ⟨key, content, modified, reaches, -, there, rfl⟩ :=
      FileTree.stat_join s.wellFormed s.current hname
        (fun key found => s.leads key found ▸ plain) done
    cases s.leads key reaches
    exact found after content modified later same.symm there

theorem Meets.read {f : Except IoError Bytes → Program α} (hname : name.IsProper)
    {content : Bytes} {modified : Int}
    (there : host.tree.lookup (folder ++ [name]) = some (.file content modified))
    (failed : ∀ e after, host.Later after → after.tree = host.tree →
      (host.Steady → host.Reaches folder directory → ¬ Fits directory name) →
      Meets cut post (f (.error e)) after)
    (found : ∀ after, host.Later after → after.tree = host.tree →
      Meets cut post (f (.ok content)) after) :
    Meets cut post (read (directory.join name) >>= f) host := by
  apply Meets.file here (by simp)
  · intro e after later _ same why
    apply failed e after later same
    intro steady reaches fits
    have result := why (steady _ _ (by simp))
    rw [FileTree.perform,
      FileTree.read_of_file s.wellFormed s.current hname fits reaches there] at result
    cases result
  · intro result after later performed
    have done : host.tree.read host.directory (directory.join name) = .ok result :=
      congrArg Prod.fst performed
    have same : host.tree = after.tree := congrArg Prod.snd performed
    have plain : host.tree.IsPlain folder name := FileTree.isPlain_of_file there
    obtain ⟨key, modified', reaches, there'⟩ :=
      FileTree.read_join s.wellFormed s.current hname
        (fun key found => s.leads key found ▸ plain) done
    cases s.leads key reaches
    rw [there] at there'
    cases there'
    exact found after later same.symm

/-- The entries that are listed are those of the folder. -/
theorem Meets.list {f : Except IoError (List (Name × EntryKind)) → Program α}
    (failed : ∀ e after, host.Later after → after.tree = host.tree →
      (host.Steady → FileTree.refusal? directory = none → ¬ host.Reaches folder directory) →
      Meets cut post (f (.error e)) after)
    (listed : ∀ after, host.Later after → after.tree = host.tree →
      host.Reaches folder directory → FileTree.refusal? directory = none →
      Meets cut post
        (f (.ok ((host.tree.children folder).map fun child => (child.1, child.2.kind)))) after) :
    Meets cut post (list directory >>= f) host := by
  apply Meets.file here (by simp)
  · intro e after later _ same why
    apply failed e after later same
    intro steady accepted reaches
    have result := why (steady _ _ (by simp))
    rw [FileTree.perform, FileTree.list_eq_ok_iff.mpr ⟨folder, accepted, reaches, rfl⟩] at result
    cases result
  · intro result after later performed
    have done : host.tree.list host.directory directory = .ok result :=
      congrArg Prod.fst performed
    have same : host.tree = after.tree := congrArg Prod.snd performed
    obtain ⟨key, accepted, reaches, rfl⟩ := FileTree.list_eq_ok_iff.mp done
    cases s.leads key reaches
    exact listed after later same.symm reaches accepted

end Rules

end Program
end DiskQueue
