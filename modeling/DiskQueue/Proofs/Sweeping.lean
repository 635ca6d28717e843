/-
Module: DiskQueue.Proofs.Sweeping
Purpose: What a sweep removes from the folder of a queue and what it tells of that, and
  what reports leave alone.
Trusted boundary: none
Main exports:
  FileTree.Swept, FileTree.Erases, Queue.Abandoned, Queue.SweepAccount, Queue.meets_sweep,
  Queue.readsOnly_status
-/
import DiskQueue.Proofs.Taking
import DiskQueue.Queue.Survey
import Mathlib.Data.List.Forall2

namespace DiskQueue

open FileTree (Fits Sets Follows)
open FileNames (asTemporary)

/-!
A sweep takes away files with temporary names and nothing else, wherever it is cut off.
What it is for are the abandoned ones; when it ends, it has removed some of them, has told of
exactly those, and has left one behind only where the system did not let it look at the file or
remove it. A report changes nothing.
-/

namespace FileTree

variable {folder : Key} {before mid after : FileTree} {base : Name}

/-- Some temporary files are gone, and all else is as it was. -/
def Swept (folder : Key) (before after : FileTree) : Prop :=
  ∀ key, after.lookup key = before.lookup key ∨
    after.lookup key = none ∧ ∃ base, key = folder ++ [asTemporary base] ∧
      before.IsPlain folder (asTemporary base)

theorem Swept.refl (folder : Key) (tree : FileTree) : Swept folder tree tree := fun _ => .inl rfl

theorem Swept.isPlain (h : Swept folder before after) {name : Name}
    (plain : after.IsPlain folder name) : before.IsPlain folder name := by
  intro node found
  rcases h (folder ++ [name]) with same | ⟨-, base, eq, free⟩
  · exact plain node (same.trans found)
  · obtain ⟨-, own⟩ := List.append_inj' eq rfl
    cases own
    exact free node found

theorem Swept.trans (h₁ : Swept folder before mid) (h₂ : Swept folder mid after) :
    Swept folder before after := by
  intro key
  rcases h₂ key with same | ⟨gone, base, rfl, plain⟩
  · rcases h₁ key with same' | ⟨gone, which⟩
    · exact .inl (same.trans same')
    · exact .inr ⟨same.trans gone, which⟩
  · exact .inr ⟨gone, base, rfl, h₁.isPlain plain⟩

theorem swept_of_sets (sets : Sets folder (asTemporary base) none before after)
    (plain : before.IsPlain folder (asTemporary base)) : Swept folder before after := by
  intro key
  rw [sets]
  split
  · rename_i own
    exact .inr ⟨rfl, base, own, plain⟩
  · exact .inl rfl

/-- What is no file is not swept. -/
theorem Swept.lookup_of_kind (h : Swept folder before after) {key : Key} {node : Node}
    (there : before.lookup key = some node) (kind : node.kind ≠ .file) :
    after.lookup key = some node := by
  rcases h key with same | ⟨-, base, rfl, plain⟩
  · exact same.trans there
  · exact absurd (plain node there) kind

theorem Swept.lookup_eq_some (h : Swept folder before after) {key : Key} {node : Node}
    (there : after.lookup key = some node) : before.lookup key = some node := by
  rcases h key with same | ⟨gone, -⟩
  · exact same.symm.trans there
  · rw [gone] at there
    cases there

theorem Swept.lookup_committed (h : Swept folder before after) (base : Name) :
    after.lookup (folder ++ [FileNames.asCommitted base])
      = before.lookup (folder ++ [FileNames.asCommitted base]) := by
  rcases h (folder ++ [FileNames.asCommitted base]) with same | ⟨-, other, eq, -⟩
  · exact same
  · obtain ⟨-, own⟩ := List.append_inj' eq rfl
    exact absurd (List.cons.inj own).1 (FileNames.committed_ne_temporary base other)

theorem Swept.follows (h : Swept folder before after) : Follows folder before after where
  directories key := by
    constructor
    · exact h.lookup_eq_some
    · exact fun there => h.lookup_of_kind there (by simp [Node.kind])
  links key target there := h.lookup_eq_some there
  keeps _ key target there := h.lookup_of_kind there (by simp [Node.kind])
  wellFormed wf := by
    constructor
    · intro key name node there
      exact h.lookup_of_kind (wf.parent (h.lookup_eq_some there)) (by simp [Node.kind])
    · intro key name node there
      exact wf.proper (h.lookup_eq_some there)

/-- A path keeps leading where it has led, since it does not lead through files. -/
theorem Swept.folder? (h : Swept folder before after) {current : Key} {directory : Path}
    {key : Key} (found : before.folder? current directory = some key) :
    after.folder? current directory = some key :=
  folder?_mono (fun _ _ kind there => h.lookup_of_kind there kind) found

/-- Entries of a directory are gone, and all else is as it was. -/
def Erases (folder : Key) (names : List Name) (before after : FileTree) : Prop :=
  ∀ key, after.lookup key
    = if key ∈ names.map (fun name => folder ++ [name]) then none else before.lookup key

variable {names others : List Name} {name : Name} {node : Node}

theorem Erases.refl (folder : Key) (tree : FileTree) : Erases folder [] tree tree := by
  intro key
  rw [List.map_nil, if_neg List.not_mem_nil]

theorem Sets.erases (sets : Sets folder name none before after) :
    Erases folder [name] before after := by
  intro key
  simpa only [List.map_singleton, List.mem_singleton] using sets key

theorem Erases.lookup_of_notMem (h : Erases folder names before after) (other : name ∉ names) :
    after.lookup (folder ++ [name]) = before.lookup (folder ++ [name]) := by
  rw [h, if_neg]
  simpa using other

theorem Erases.lookup_of_mem (h : Erases folder names before after) (mem : name ∈ names) :
    after.lookup (folder ++ [name]) = none := by
  rw [h, if_pos (List.mem_map_of_mem mem)]

theorem Erases.lookup_eq_some (h : Erases folder names before after) {key : Key}
    (there : after.lookup key = some node) : before.lookup key = some node := by
  rw [h] at there
  split at there
  · cases there
  · exact there

theorem Erases.trans (h₁ : Erases folder names before mid) (h₂ : Erases folder others mid after) :
    Erases folder (names ++ others) before after := by
  intro key
  rw [h₂, h₁]
  simp only [List.map_append, List.mem_append]
  by_cases first : key ∈ names.map fun name => folder ++ [name]
  · simp only [first, true_or, if_true, ite_self]
  · simp only [first, false_or, if_false]

end FileTree

open FileTree (Swept)

/-- The system takes the path of a file, and no fault keeps the file from being looked at and
removed. -/
structure Host.Permits (host : Host) (directory : Path) (name : Name) : Prop where
  fits : Fits directory name
  looked : ∀ number, host.fault number (.stat (directory.join name)) = none
  removed : ∀ number, host.fault number (.remove (directory.join name)) = none

theorem Host.Permits.later {host after : Host} {directory : Path} {name : Name}
    (h : host.Permits directory name) (later : host.Later after) :
    after.Permits directory name :=
  ⟨h.fits, later.fault ▸ h.looked, later.fault ▸ h.removed⟩

namespace Queue

variable {queue : Queue} {folder : Key} {host mid after : Host} {tree : FileTree} {name : Name}
  {now : Int} {minAgeMs : Nat} {names others removed : List Name} {files : List SweptFile}

/-- A file that a sweep is for. Its name is a temporary one, and the base name is text that is
not claimed and does not carry the mark of the queue. It is old enough; the age of a file that
is modified in the future is zero. -/
structure Abandoned (queue : Queue) (folder : Key) (tree : FileTree) (now : Int) (minAgeMs : Nat)
    (name : Name) : Prop where
  temporary : FileNames.hasExtension name FileNames.temporary = true
  base : ∃ base, FileNames.baseName? name = some base ∧ base ∉ queue.candidates.claimed ∧
    FileNames.contains (FileNames.mark queue.token) base = false
  old : ∃ content modified, tree.lookup (folder ++ [name]) = some (.file content modified) ∧
    minAgeMs ≤ (now - modified).toNat

/-- What is told of a file that is removed. -/
def Tells (queue : Queue) (folder : Key) (tree : FileTree) (now : Int) (name : Name)
    (file : SweptFile) : Prop :=
  ∃ content modified, tree.lookup (folder ++ [name]) = some (.file content modified) ∧
    file = ⟨queue.directory.join name, content.length, (now - modified).toNat / 1000⟩

theorem spares_eq_false_iff (queue : Queue) (name : Name) :
    queue.spares name = false ↔
      ∃ base, FileNames.baseName? name = some base ∧ base ∉ queue.candidates.claimed ∧
        FileNames.contains (FileNames.mark queue.token) base = false := by
  unfold spares
  cases FileNames.baseName? name with
  | none => simp
  | some base => simp [Candidates.isClaimed]

theorem Abandoned.congr {other : FileTree} (h : queue.Abandoned folder tree now minAgeMs name)
    (same : ∀ node, tree.lookup (folder ++ [name]) = some node →
      other.lookup (folder ++ [name]) = some node) :
    queue.Abandoned folder other now minAgeMs name := by
  obtain ⟨content, modified, there, old⟩ := h.old
  exact ⟨h.temporary, h.base, content, modified, same _ there, old⟩

theorem Tells.congr {other : FileTree} {file : SweptFile}
    (h : queue.Tells folder tree now name file)
    (same : ∀ node, tree.lookup (folder ++ [name]) = some node →
      other.lookup (folder ++ [name]) = some node) :
    queue.Tells folder other now name file := by
  obtain ⟨content, modified, there, told⟩ := h
  exact ⟨content, modified, same _ there, told⟩

/-- What becomes of the named files in a sweep, and what is told of it. -/
structure SweepAccount (queue : Queue) (folder : Key) (now : Int) (minAgeMs : Nat)
    (names : List Name) (host after : Host) (removed : List Name) (files : List SweptFile) :
    Prop where
  sublist : removed.Sublist names
  due : ∀ name ∈ removed, queue.Abandoned folder host.tree now minAgeMs name
  told : List.Forall₂ (queue.Tells folder host.tree now) removed files
  erased : host.tree.Erases folder removed after.tree
  all : host.Reaches folder queue.directory → ∀ name ∈ names,
    queue.Abandoned folder host.tree now minAgeMs name → host.Permits queue.directory name →
    name ∈ removed

theorem SweepAccount.keeps (same : after.tree = host.tree)
    (why : host.Reaches folder queue.directory → ∀ name ∈ names,
      queue.Abandoned folder host.tree now minAgeMs name →
      ¬ host.Permits queue.directory name) :
    queue.SweepAccount folder now minAgeMs names host after [] [] where
  sublist := List.nil_sublist names
  due _ mem := nomatch mem
  told := .nil
  erased := same ▸ FileTree.Erases.refl folder host.tree
  all reaches name mem abandoned permits := absurd permits (why reaches name mem abandoned)

/-- The accounts of two rows of names, one after the other, are the account of both. -/
theorem SweepAccount.append {removed' : List Name} {files' : List SweptFile}
    (first : queue.SweepAccount folder now minAgeMs names host mid removed files)
    (rest : queue.SweepAccount folder now minAgeMs others mid after removed' files')
    (later : host.Later mid) (swept : Swept folder host.tree mid.tree)
    (disjoint : ∀ name ∈ names, name ∉ others) :
    queue.SweepAccount folder now minAgeMs (names ++ others) host after (removed ++ removed')
      (files ++ files') where
  sublist := first.sublist.append rest.sublist
  due name mem := by
    rcases List.mem_append.mp mem with mem | mem
    · exact first.due name mem
    · exact (rest.due name mem).congr fun _ => swept.lookup_eq_some
  told := by
    apply List.rel_append first.told
    exact rest.told.imp fun _ _ tells => tells.congr fun _ => swept.lookup_eq_some
  erased := first.erased.trans rest.erased
  all reaches name mem abandoned permits := by
    rcases List.mem_append.mp mem with mem | mem
    · exact List.mem_append_left _ (first.all reaches name mem abandoned permits)
    · have reached : mid.Reaches folder queue.directory := by
        unfold Host.Reaches at reaches ⊢
        rw [later.directory]
        exact swept.folder? reaches
      have untouched : name ∉ removed := fun gone => disjoint name (first.sublist.subset gone) mem
      have abandoned : queue.Abandoned folder mid.tree now minAgeMs name :=
        abandoned.congr fun _ there => (first.erased.lookup_of_notMem untouched).trans there
      exact List.mem_append_right _ (rest.all reached name mem abandoned (permits.later later))

/-- A file that is listed and not spared is removed if it is old enough, unless the system does
not permit it. -/
theorem meets_sweepFile (serves : host.Serves folder queue.directory)
    (mem : name ∈ Stored.listed host.tree folder FileNames.temporary)
    (unspared : queue.spares name = false) (now : Int) (minAgeMs : Nat) :
    Program.Meets (Swept folder host.tree)
      (fun swept after => ∃ removed,
        queue.SweepAccount folder now minAgeMs [name] host after removed swept.toList)
      (sweepFile (queue.directory.join name) now minAgeMs) host := by
  obtain ⟨base, -, slash, rfl, content, modified, there⟩ :=
    Stored.exists_base serves.wellFormed mem
  have temporary := (Stored.mem_listed.mp mem).1
  have proper := FileNames.isProper_withExtension FileNames.temporary_mem_extensions slash
  have plain : host.tree.IsPlain folder (asTemporary base) := FileTree.isPlain_of_file there
  have start : Swept folder host.tree host.tree := Swept.refl _ _
  apply Program.Meets.stat serves start proper plain
  · intro e after later _ same why
    have here : Swept folder host.tree after.tree := same ▸ start
    refine Program.Meets.logged here fun told _ sameTold =>
      ⟨[], .keeps (sameTold.trans same) ?_⟩
    rintro reaches name mem - permits
    cases List.mem_singleton.mp mem
    cases there.symm.trans (why (permits.looked _) reaches permits.fits)
  · intro looked content' modified' later same there'
    have here : Swept folder host.tree looked.tree := same ▸ start
    cases there.symm.trans there'
    dsimp only
    split
    · rename_i young
      refine Program.Meets.done here ⟨[], .keeps same ?_⟩
      rintro - name mem ⟨-, -, _, _, found, old⟩
      cases List.mem_singleton.mp mem
      cases there.symm.trans found
      omega
    · rename_i old
      apply Program.Meets.remove (serves.unchanged later same) here proper
      · intro e after laterAfter sameAfter why
        have sameAfter := sameAfter.trans same
        have here : Swept folder host.tree after.tree := sameAfter ▸ start
        refine Program.Meets.logged here fun told _ sameTold =>
          ⟨[], .keeps (sameTold.trans sameAfter) ?_⟩
        rintro reaches name mem - permits
        cases List.mem_singleton.mp mem
        have removable := (permits.later later).removed looked.calls
        cases why removable ((later.reaches_iff same).mpr reaches) permits.fits _ (same ▸ there)
      · intro after node laterAfter _ _ sets
        rw [same] at sets
        have here := FileTree.swept_of_sets sets plain
        refine Program.Meets.logged here fun told _ sameTold => ⟨[asTemporary base], ?_⟩
        exact {
          sublist := List.Sublist.refl _
          due := by
            intro name mem
            cases List.mem_singleton.mp mem
            exact ⟨temporary, (spares_eq_false_iff _ _).mp unspared, content, modified, there,
              by omega⟩
          told := .cons ⟨content, modified, there, rfl⟩ .nil
          erased := sameTold ▸ sets.erases
          all := fun _ _ mem _ _ => mem }

/-- The names that are swept have all been listed before the first of them is removed. -/
theorem meets_sweepNames (now : Int) (minAgeMs : Nat)
    (serves : host.Serves folder queue.directory) (distinct : names.Nodup)
    (listed : ∀ name ∈ names, name ∈ Stored.listed host.tree folder FileNames.temporary) :
    Program.Meets (Swept folder host.tree)
      (fun files after => ∃ removed,
        queue.SweepAccount folder now minAgeMs names host after removed files)
      (queue.sweepNames now minAgeMs names) host := by
  induction names generalizing host with
  | nil =>
    have nothing : queue.SweepAccount folder now minAgeMs [] host host [] [] :=
      .keeps rfl fun _ _ mem => nomatch mem
    exact Program.Meets.done (Swept.refl _ _) ⟨[], nothing⟩
  | cons name rest ih =>
    obtain ⟨fresh, distinct⟩ := List.nodup_cons.mp distinct
    have disjoint : ∀ other ∈ [name], other ∉ rest := by
      intro other mem
      rwa [List.mem_singleton.mp mem]
    unfold sweepNames
    split
    · rename_i spared
      refine (ih serves distinct fun other mem => listed other (List.mem_cons_of_mem _ mem)).mono
        (fun _ stopped => stopped) ?_
      rintro files after - ⟨removed, account⟩
      have kept : queue.SweepAccount folder now minAgeMs [name] host host [] [] := by
        apply SweepAccount.keeps rfl
        intro _ other mem abandoned
        cases List.mem_singleton.mp mem
        rw [(spares_eq_false_iff _ _).mpr abandoned.base] at spared
        cases spared
      exact ⟨removed, kept.append account (Host.Later.refl host) (Swept.refl _ _) disjoint⟩
    · rename_i unspared
      rw [Bool.not_eq_true] at unspared
      apply (meets_sweepFile serves (listed name List.mem_cons_self) unspared now minAgeMs).bind
      rintro swept mid later here ⟨removed, first⟩
      have still : ∀ other ∈ rest, other ∈ Stored.listed mid.tree folder FileNames.temporary := by
        intro other mem
        have untouched : other ∉ removed := by
          intro gone
          cases List.mem_singleton.mp (first.sublist.subset gone)
          exact fresh mem
        obtain ⟨has, file⟩ := Stored.mem_listed.mp (listed other (List.mem_cons_of_mem _ mem))
        rw [← first.erased.lookup_of_notMem untouched] at file
        exact Stored.mem_listed.mpr ⟨has, file⟩
      refine ((ih (serves.follow later here.follows) distinct still).mono
        (fun _ stopped => here.trans stopped) fun _ _ _ account => account).bind ?_
      rintro files after - whole ⟨removed', account⟩
      exact Program.Meets.done whole ⟨_, first.append account later here disjoint⟩

/-- A sweep does nothing where the directory cannot be listed. Else it reads the clock once and
gives an account of all temporary files. -/
theorem meets_sweep (minAgeMs : Nat) (serves : host.Serves folder queue.directory) :
    Program.Meets (Swept folder host.tree)
      (fun result after =>
        match result with
        | .error _ => after.tree = host.tree ∧ (host.Steady →
            FileTree.refusal? queue.directory = none → ¬ host.Reaches folder queue.directory)
        | .ok files => host.Reaches folder queue.directory ∧
            ∃ moment removed, host.calls ≤ moment ∧ moment < after.calls ∧
              queue.SweepAccount folder (host.clock moment) minAgeMs
                (Stored.listed host.tree folder FileNames.temporary) host after removed files)
      (queue.sweep minAgeMs) host := by
  apply (Stored.meets_names FileNames.temporary serves (Swept.refl _ _)).bind
  rintro result listed later here ⟨same, found⟩
  cases result with
  | error e => exact Program.Meets.done here ⟨same, found⟩
  | ok names =>
    obtain ⟨reaches, -, rfl⟩ := found
    apply Program.Meets.now here
    intro timed laterTimed counted sameTimed
    have later' := later.trans laterTimed
    have same := sameTimed.trans same
    have swept := meets_sweepNames (listed.clock listed.calls) minAgeMs
      (serves.unchanged later' same) (Stored.nodup_listed timed.tree folder FileNames.temporary)
      fun _ mem => mem
    rw [same] at swept
    apply swept.bind
    rintro files after laterAfter whole ⟨removed, account⟩
    have during : listed.calls < after.calls := by
      have := laterAfter.calls
      omega
    refine Program.Meets.done whole ⟨reaches, listed.calls, removed, later.calls, during, ?_⟩
    rw [later.clock] at account
    exact {
      sublist := account.sublist
      due := by simpa only [same] using account.due
      told := by simpa only [same] using account.told
      erased := by simpa only [same] using account.erased
      all := fun reaches name mem abandoned permits =>
        account.all ((later'.reaches_iff same).mpr reaches) name mem
          (by rwa [same]) (permits.later later') }

/-! ### Reports -/

theorem readsOnly_names (directory : Path) (extension : Name) :
    (Stored.names directory extension).ReadsOnly := by
  refine ⟨rfl, ?_⟩
  intro reply
  cases reply <;> trivial

theorem readsOnly_addSizes (paths : List Path) (sum : UInt64) :
    (Stored.addSizes sum paths).ReadsOnly := by
  induction paths generalizing sum with
  | nil => trivial
  | cons path rest ih =>
    refine ⟨rfl, ?_⟩
    intro reply
    cases reply <;> exact ih _

theorem readsOnly_totalSize (directory : Path) (extension : Name) :
    (Stored.totalSize directory extension).ReadsOnly := by
  apply Program.ReadsOnly.bind
  · apply (readsOnly_names directory extension).bind
    intro result
    cases result <;> trivial
  · intro result
    cases result with
    | error e => trivial
    | ok paths => exact (readsOnly_addSizes paths 0).bind fun _ => trivial

theorem readsOnly_survey (directory : Path) (extension : Name) :
    (survey directory extension).ReadsOnly := by
  apply (readsOnly_names directory extension).bind
  intro result
  cases result with
  | error e => trivial
  | ok names =>
    apply (readsOnly_totalSize directory extension).bind
    intro total
    cases total <;> trivial

theorem readsOnly_status (queue : Queue) : queue.status.ReadsOnly := by
  apply (readsOnly_survey queue.directory FileNames.committed).bind
  intro committed
  cases committed with
  | error e => trivial
  | ok found =>
    apply (readsOnly_survey queue.directory FileNames.temporary).bind
    intro temporary
    cases temporary <;> trivial

end Queue
end DiskQueue
