/-
Module: DiskQueue.Proofs.Staging
Purpose: Which names storing a record tries, and what it leaves behind where it fails,
  if nothing but a rename can fail.
Trusted boundary: none
Main exports:
  Host.FailsOnlyRenames, Queue.triedBase, Queue.collisions, Queue.Occupied,
  Queue.Drawn, Queue.CleanStore, Queue.stores_cleanly
-/
import DiskQueue.Proofs.Attempts
import DiskQueue.Proofs.Fleet

namespace DiskQueue

open FileTree (Fits Sets Moves Committed)
open FileNames (asCommitted asTemporary)

/-!
Where only a rename can fail, storing a record is determined by the entries of the folder
and the readings of the clock. The names of sixteen numbers may be tried, each with a time
of its own; the first one that no entry has is taken, and no other entry is touched. What
is left behind is nothing, a temporary file with the whole record, or the record.
-/

/-- No operation fails that the tree allows, except that a name may not change. -/
def Host.FailsOnlyRenames (host : Host) : Prop :=
  ∀ number op, (∀ source target, op ≠ .rename source target) → host.fault number op = none

theorem Host.Later.failsOnlyRenames {host after : Host} (later : host.Later after)
    (h : host.FailsOnlyRenames) : after.FailsOnlyRenames := by
  intro number op other
  rw [later.fault]
  exact h number op other

namespace FileTree

variable {tree : FileTree} {current folder : Key} {directory : Path} {name : Name} {now : Int}

/-- What is wrong with a path that is not looked at is never that something is there. -/
theorem refusal?_ne_alreadyExists (path : Path) : refusal? path ≠ some .alreadyExists := by
  unfold refusal?
  split_ifs <;> decide

/-- A name that does not fit is refused for what it is. -/
theorem createNew_of_unfit (hname : name.IsProper)
    (leads : tree.folder? current directory = some folder) (unfit : ¬ Fits directory name) :
    ∃ e, e ≠ .alreadyExists ∧ createNew tree current now (directory.join name) = .error e := by
  cases refused : refusal? (directory.join name) with
  | some e =>
    refine ⟨e, fun same => refusal?_ne_alreadyExists _ (same ▸ refused), ?_⟩
    rw [createNew, place, refused]
  | none =>
    have long : maxNameLength < name.length :=
      Nat.lt_of_not_le fun short => unfit ⟨refused, short⟩
    refine ⟨.nameTooLong, by decide, ?_⟩
    rw [createNew, place_join hname refused leads]
    simp only [Bool.false_eq_true, if_false, addEntry, entryAt, if_pos long]

/-- A name that an entry has is refused for that. -/
theorem createNew_of_entry {node : Node} (hname : name.IsProper)
    (leads : tree.folder? current directory = some folder) (fits : Fits directory name)
    (there : tree.lookup (folder ++ [name]) = some node) :
    createNew tree current now (directory.join name) = .error .alreadyExists := by
  rw [createNew, place_join hname fits.accepted leads]
  simp only [Bool.false_eq_true, if_false, addEntry, entryAt_of_short fits.short, there]

/-- A name that is free and fits is given to an empty file. -/
theorem createNew_of_free (hname : name.IsProper)
    (leads : tree.folder? current directory = some folder) (fits : Fits directory name)
    (free : tree.lookup (folder ++ [name]) = none) :
    createNew tree current now (directory.join name)
      = .ok (tree.insert (folder ++ [name]) (.file [] now)) := by
  rw [createNew, place_join hname fits.accepted leads]
  simp only [Bool.false_eq_true, if_false, addEntry, entryAt_of_short fits.short, free]

end FileTree

namespace Host

variable {folder : Key} {directory : Path} {host : Host} {name : Name}

/-- An operation that no fault strikes does what the tree allows. -/
theorem operate_of_clear {op : FileOp} (clear : host.fault host.calls op = none) :
    (host.operate op).1
        = (host.tree.perform host.directory (host.clock host.calls) op).1 ∧
      (host.operate op).2.tree
        = (host.tree.perform host.directory (host.clock host.calls) op).2 := by
  unfold operate
  rw [clear]
  exact ⟨rfl, rfl⟩

/-- Bytes are put at the end of a file that can be reached. -/
theorem meets_append {start content : Bytes} {modified : Int}
    (serves : host.Serves folder directory) (reaches : host.Reaches folder directory)
    (clear : host.FailsOnlyRenames) (hname : name.IsProper) (fits : Fits directory name)
    (there : host.tree.lookup (folder ++ [name]) = some (.file start modified)) :
    Program.Meets (fun _ => True)
      (fun reply after => reply = .ok () ∧ Sets folder name
        (some (.file (start ++ content) (host.clock host.calls))) host.tree after.tree)
      (Program.append (directory.join name) content) host := by
  refine ⟨fun _ => trivial, ?_⟩
  obtain ⟨reply, tree⟩ := operate_of_clear
    (clear host.calls (.append (directory.join name) content) (by simp))
  rw [FileTree.perform, FileTree.append,
    FileTree.locate_of_file serves.wellFormed serves.current hname fits reaches there] at reply tree
  refine ⟨reply, ?_⟩
  show Sets folder name _ host.tree (host.operate (.append (directory.join name) content)).2.tree
  rw [tree]
  exact FileTree.sets_insert _ _ _ _

/-- What has been written to a file that can be reached is stored. -/
theorem meets_sync {content : Bytes} {modified : Int}
    (serves : host.Serves folder directory) (reaches : host.Reaches folder directory)
    (clear : host.FailsOnlyRenames) (hname : name.IsProper) (fits : Fits directory name)
    (there : host.tree.lookup (folder ++ [name]) = some (.file content modified)) :
    Program.Meets (fun _ => True) (fun reply after => reply = .ok () ∧ after.tree = host.tree)
      (Program.sync (directory.join name)) host := by
  refine ⟨fun _ => trivial, ?_⟩
  obtain ⟨reply, tree⟩ := operate_of_clear
    (clear host.calls (.sync (directory.join name)) (by simp))
  rw [FileTree.perform, FileTree.sync,
    FileTree.locate_of_file serves.wellFormed serves.current hname fits reaches there] at reply
  exact ⟨reply, tree⟩

/-- What making a new file comes to without faults: the name does not fit, or belongs to an
entry, or is given to an empty file. -/
inductive Creation (folder : Key) (directory : Path) (name : Name) (host : Host) :
    Except IoError Unit → FileTree → Prop
  | unfit (e : IoError) (other : e ≠ .alreadyExists) (unfit : ¬ Fits directory name) :
      Creation folder directory name host (.error e) host.tree
  | occupied (fits : Fits directory name) (there : host.tree.lookup (folder ++ [name]) ≠ none) :
      Creation folder directory name host (.error .alreadyExists) host.tree
  | made (after : FileTree) (fits : Fits directory name)
      (free : host.tree.lookup (folder ++ [name]) = none)
      (sets : Sets folder name (some (.file [] (host.clock host.calls))) host.tree after) :
      Creation folder directory name host (.ok ()) after

theorem meets_createNew (reaches : host.Reaches folder directory) (clear : host.FailsOnlyRenames)
    (hname : name.IsProper) :
    Program.Meets (fun _ => True)
      (fun reply after => Creation folder directory name host reply after.tree)
      (Program.createNew (directory.join name)) host := by
  refine ⟨fun _ => trivial, ?_⟩
  show Creation folder directory name host (host.operate (.createNew (directory.join name))).1
    (host.operate (.createNew (directory.join name))).2.tree
  obtain ⟨reply, tree⟩ := operate_of_clear (clear host.calls (.createNew (directory.join name))
    (by simp))
  rw [reply, tree, FileTree.perform]
  by_cases fits : Fits directory name
  · cases there : host.tree.lookup (folder ++ [name]) with
    | none =>
      rw [FileTree.createNew_of_free hname reaches fits there]
      exact .made _ fits there (FileTree.sets_insert _ _ _ _)
    | some node =>
      rw [FileTree.createNew_of_entry hname reaches fits there]
      exact .occupied fits (by simp [there])
  · obtain ⟨e, other, refused⟩ := FileTree.createNew_of_unfit hname reaches fits
    rw [refused]
    exact .unfit e other fits

end Host

namespace Queue

variable {queue : Queue} {folder : Key} {host mid after : Host} {attempts : Nat}

/-! ### Names that are tried -/

/-- The base name of the number that is so many further on, with the time that is read for it:
an attempt that fails makes three calls, the first of which asks for the time. -/
def triedBase (queue : Queue) (host : Host) (number : Nat) : Name :=
  queue.base (host.clock (host.calls + 3 * number)) number

/-- The path of the temporary file that is tried for a number. -/
def triedPath (queue : Queue) (host : Host) (number : Nat) : Path :=
  FileNames.temporaryPath queue.directory (queue.triedBase host number)

/-- Whether the name that is tried for a number fits, but an entry has it. -/
def Occupied (queue : Queue) (folder : Key) (host : Host) (number : Nat) : Prop :=
  Fits queue.directory (asTemporary (queue.triedBase host number)) ∧
    host.tree.lookup (folder ++ [asTemporary (queue.triedBase host number)]) ≠ none

/-- The attempts at names that entries have. -/
def collisions (queue : Queue) (host : Host) (count : Nat) : List Attempt :=
  (List.range count).map fun number =>
    ⟨.createNew (queue.triedPath host number), some .alreadyExists⟩

/-- The names that are tried next are those of the numbers and times that are left. -/
theorem triedBase_advance (later : host.Later mid) (calls : mid.calls = host.calls + 3)
    (number : Nat) :
    (queue.advance 1).triedBase mid number = queue.triedBase host (number + 1) := by
  have reading : mid.calls + 3 * number = host.calls + 3 * (number + 1) := by omega
  rw [triedBase, triedBase, base_advance, later.clock, reading, Nat.add_comm 1 number]

theorem triedPath_advance (later : host.Later mid) (calls : mid.calls = host.calls + 3)
    (number : Nat) :
    (queue.advance 1).triedPath mid number = queue.triedPath host (number + 1) := by
  rw [triedPath, triedBase_advance later calls]
  rfl

theorem occupied_advance (later : host.Later mid) (calls : mid.calls = host.calls + 3)
    (same : mid.tree = host.tree) (number : Nat) :
    (queue.advance 1).Occupied folder mid number ↔ queue.Occupied folder host (number + 1) := by
  unfold Occupied
  rw [triedBase_advance later calls, same]
  exact Iff.rfl

theorem collisions_succ (later : host.Later mid) (calls : mid.calls = host.calls + 3)
    (count : Nat) :
    queue.collisions host (count + 1)
      = ⟨.createNew (queue.triedPath host 0), some .alreadyExists⟩
        :: (queue.advance 1).collisions mid count := by
  simp only [collisions, List.range_succ_eq_map, List.map_cons, List.map_map]
  congr 1
  apply List.map_congr_left
  intro number _
  rw [triedPath_advance later calls]
  rfl

/-- What an earlier number and all before the later ones come to. -/
theorem occupied_succ (later : host.Later mid) (calls : mid.calls = host.calls + 3)
    (same : mid.tree = host.tree) (first : queue.Occupied folder host 0) {count : Nat}
    (rest : ∀ number < count, (queue.advance 1).Occupied folder mid number) :
    ∀ number < count + 1, queue.Occupied folder host number := by
  intro number bound
  cases number with
  | zero => exact first
  | succ number =>
    exact (occupied_advance later calls same number).mp (rest number (Nat.lt_of_succ_lt_succ bound))

/-- What drawing numbers for a temporary file comes to: all names are occupied, or the first
one that is not does not fit, or it is taken. -/
inductive Drawn (queue : Queue) (folder : Key) (host : Host) (attempts : Nat) (after : FileTree)
    (made : List Attempt) : Except IoError Path × Queue → Prop
  | exhausted (occupied : ∀ number < attempts, queue.Occupied folder host number)
      (tried : made = queue.collisions host attempts) (same : after = host.tree) :
      Drawn queue folder host attempts after made (.error .alreadyExists, queue.advance attempts)
  | unfit (number : Nat) (bound : number < attempts)
      (occupied : ∀ earlier < number, queue.Occupied folder host earlier)
      (unfit : ¬ Fits queue.directory (asTemporary (queue.triedBase host number))) (e : IoError)
      (tried : made = queue.collisions host number
        ++ [⟨.createNew (queue.triedPath host number), some e⟩]) (same : after = host.tree) :
      Drawn queue folder host attempts after made (.error e, queue.advance (number + 1))
  | drawn (number : Nat) (bound : number < attempts)
      (occupied : ∀ earlier < number, queue.Occupied folder host earlier)
      (fits : Fits queue.directory (asTemporary (queue.triedBase host number)))
      (free : host.tree.lookup (folder ++ [asTemporary (queue.triedBase host number)]) = none)
      (tried : made = queue.collisions host number
        ++ [⟨.createNew (queue.triedPath host number), none⟩]) (modified : Int)
      (sets : Sets folder (asTemporary (queue.triedBase host number))
        (some (.file [] modified)) host.tree after) :
      Drawn queue folder host attempts after made
        (.ok (queue.triedPath host number), queue.advance (number + 1))

/-- The first name was occupied. -/
theorem Drawn.of_advance {after : FileTree} {made : List Attempt}
    {outcome : Except IoError Path × Queue} (later : host.Later mid)
    (calls : mid.calls = host.calls + 3) (same : mid.tree = host.tree)
    (first : queue.Occupied folder host 0)
    (h : (queue.advance 1).Drawn folder mid attempts after made outcome) :
    queue.Drawn folder host (attempts + 1) after
      (⟨.createNew (queue.triedPath host 0), some .alreadyExists⟩ :: made) outcome := by
  cases h with
  | exhausted occupied tried unchanged =>
    rw [advance_advance, Nat.add_comm 1 attempts]
    refine .exhausted (occupied_succ later calls same first occupied) ?_ (unchanged.trans same)
    rw [collisions_succ later calls, tried]
  | unfit number bound occupied unfit e tried unchanged =>
    rw [advance_advance, Nat.add_comm 1 (number + 1)]
    rw [triedBase_advance later calls] at unfit
    rw [triedPath_advance later calls] at tried
    refine .unfit (number + 1) (by omega) (occupied_succ later calls same first occupied) unfit e ?_
      (unchanged.trans same)
    rw [collisions_succ later calls, tried, List.cons_append]
  | drawn number bound occupied fits free tried modified sets =>
    rw [advance_advance, Nat.add_comm 1 (number + 1), triedPath_advance later calls]
    rw [triedBase_advance later calls] at fits
    rw [triedBase_advance later calls, same] at free sets
    rw [triedPath_advance later calls] at tried
    refine .drawn (number + 1) (by omega) (occupied_succ later calls same first occupied) fits free
      ?_ modified sets
    rw [collisions_succ later calls, tried, List.cons_append]

theorem endsWith_createStaging (attempts : Nat) (reaches : host.Reaches folder queue.directory)
    (clear : host.FailsOnlyRenames) (valid : queue.token.IsValid) :
    Program.EndsWith
      (fun made outcome after => queue.Drawn folder host attempts after.tree made outcome)
      (queue.createStaging attempts) host := by
  induction attempts generalizing queue host with
  | zero =>
    have none : queue.Drawn folder host 0 host.tree [] (.error .alreadyExists, queue.advance 0) :=
      .exhausted (by simp) rfl rfl
    rw [advance_zero] at none
    exact Program.EndsWith.done none
  | succ attempts ih =>
    refine Program.EndsWith.now fun read later calls same => ?_
    have first : FileNames.staging (host.clock host.calls) queue.token queue.sequence
        = asTemporary (queue.triedBase host 0) := by
      simp [triedBase, base, FileNames.staging]
    have proper : (asTemporary (queue.triedBase host 0)).IsProper :=
      isProper_base valid _ 0 FileNames.temporary_mem_extensions
    have reached := (later.reaches_iff same).mpr reaches
    rw [first]
    apply Program.EndsWith.file
      (Host.meets_createNew reached (later.failsOnlyRenames clear) proper)
    intro reply tried laterTried callsTried creation
    generalize outcome : tried.tree = tree at creation
    cases creation with
    | unfit e other unfit =>
      rw [same] at outcome
      simp only [other, false_and, if_false]
      exact Program.EndsWith.done
        (.unfit 0 (Nat.succ_pos _) (by simp) unfit e rfl outcome)
    | occupied fits there =>
      rw [same] at there outcome
      have occupied : queue.Occupied folder host 0 := ⟨fits, there⟩
      by_cases last : attempts = 0
      · subst last
        simp only [ne_eq, not_true_eq_false, and_false, if_false]
        exact Program.EndsWith.done
          (.exhausted (fun number bound => Nat.lt_one_iff.mp bound ▸ occupied) rfl outcome)
      · simp only [ne_eq, last, not_false_eq_true, and_self, if_true]
        apply Program.EndsWith.log
        intro retried laterRetried callsRetried sameRetried
        have later := (later.trans laterTried).trans laterRetried
        have same := sameRetried.trans outcome
        have again : Program.EndsWith _ ((queue.advance 1).createStaging attempts) retried :=
          ih ((later.reaches_iff same).mpr reaches) (later.failsOnlyRenames clear) valid
        apply again.mono
        intro made outcome after _ drawn
        exact drawn.of_advance later (by omega) same occupied
    | made after fits free sets =>
      rw [same] at free sets
      rw [← outcome] at sets
      exact Program.EndsWith.done
        (.drawn 0 (Nat.succ_pos _) (by simp) fits free rfl _ sets)

/-! ### Storing -/

/-- The attempts that store a record under the name of a number, up to the change of its name. -/
def writing (queue : Queue) (host : Host) (record : Bytes) (number : Nat) : List Attempt :=
  queue.collisions host number ++ [⟨.createNew (queue.triedPath host number), none⟩,
    ⟨.append (queue.triedPath host number) record, none⟩,
    ⟨.sync (queue.triedPath host number), none⟩]

/-- The change of the name of a temporary file. -/
def publishing (queue : Queue) (host : Host) (number : Nat) : FileOp :=
  .rename (queue.triedPath host number)
    (FileNames.committedPath queue.directory (queue.triedBase host number))

/-- What storing a record comes to: numbers are drawn in vain, or the temporary file has the
whole record and keeps its name, or the record is there. -/
inductive StoredClean (queue : Queue) (folder : Key) (record : Bytes) (host : Host)
    (after : FileTree) (made : List Attempt) : Except QueueError Path × Queue → Prop
  | exhausted (occupied : ∀ number < maxStagingAttempts, queue.Occupied folder host number)
      (tried : made = queue.collisions host maxStagingAttempts) (same : after = host.tree) :
      StoredClean queue folder record host after made
        (.error (.staging .alreadyExists), queue.advance maxStagingAttempts)
  | unfit (number : Nat) (bound : number < maxStagingAttempts)
      (occupied : ∀ earlier < number, queue.Occupied folder host earlier)
      (unfit : ¬ Fits queue.directory (asTemporary (queue.triedBase host number))) (e : IoError)
      (tried : made = queue.collisions host number
        ++ [⟨.createNew (queue.triedPath host number), some e⟩]) (same : after = host.tree) :
      StoredClean queue folder record host after made
        (.error (.staging e), queue.advance (number + 1))
  | uncommitted (number : Nat) (bound : number < maxStagingAttempts)
      (occupied : ∀ earlier < number, queue.Occupied folder host earlier)
      (free : host.tree.lookup (folder ++ [asTemporary (queue.triedBase host number)]) = none)
      (e : IoError)
      (tried : made = queue.writing host record number ++ [⟨queue.publishing host number, some e⟩])
      (modified : Int)
      (sets : Sets folder (asTemporary (queue.triedBase host number))
        (some (.file record modified)) host.tree after) :
      StoredClean queue folder record host after made
        (.error (.commit e), queue.advance (number + 1))
  | stored (number : Nat) (bound : number < maxStagingAttempts)
      (occupied : ∀ earlier < number, queue.Occupied folder host earlier)
      (tried : made = queue.writing host record number ++ [⟨queue.publishing host number, none⟩])
      (committed : Committed folder (queue.triedBase host number) record host.tree after) :
      StoredClean queue folder record host after made
        (.ok (FileNames.committedPath queue.directory (queue.triedBase host number)),
          { queue.advance (number + 1) with
            size := queue.size + UInt64.ofNat record.length })

theorem endsWith_writeSynced {directory : Path} {name : Name} {record : Bytes} {modified : Int}
    (serves : host.Serves folder directory) (reaches : host.Reaches folder directory)
    (clear : host.FailsOnlyRenames) (hname : name.IsProper) (fits : Fits directory name)
    (there : host.tree.lookup (folder ++ [name]) = some (.file [] modified)) :
    Program.EndsWith
      (fun made result after => made = [⟨.append (directory.join name) record, none⟩,
          ⟨.sync (directory.join name), none⟩] ∧ result = .ok () ∧
        ∃ modified, Sets folder name (some (.file record modified)) host.tree after.tree)
      (writeSynced (directory.join name) record) host := by
  apply Program.EndsWith.file (Host.meets_append serves reaches clear hname fits there)
  rintro _ appended later - ⟨rfl, sets⟩
  have plain : host.tree.IsPlain folder name := FileTree.isPlain_of_file there
  have follows := sets.follows (by simp [there]) serves.isFolder
    (by rintro node ⟨⟩; exact ⟨rfl, hname⟩)
  have syncing := Host.meets_sync (serves.follow later follows) (reaches.sets later plain sets)
    (later.failsOnlyRenames clear) hname fits sets.lookup_self
  show Program.EndsWith _ (Program.sync (directory.join name) >>= pure) appended
  apply Program.EndsWith.file syncing
  rintro _ synced - - ⟨rfl, same⟩
  exact Program.EndsWith.done ⟨rfl, rfl, _, same ▸ sets⟩

/-- A temporary file that has a record keeps its name, or the record is there. Without a fault only
a directory under the final name is in the way. -/
theorem endsWith_publish (queue : Queue) {base : Name} {record : Bytes} {modified : Int}
    {before : FileTree}
    (serves : host.Serves folder queue.directory) (slash : Path.slash ∉ base)
    (named : FileNames.baseName? (FileNames.temporaryPath queue.directory base) = some base)
    (free : before.lookup (folder ++ [asTemporary base]) = none)
    (sets : Sets folder (asTemporary base) (some (.file record modified)) before host.tree)
    (size : UInt64) :
    Program.EndsWith
      (fun made outcome after => ∃ failure,
        made = [⟨.rename (FileNames.temporaryPath queue.directory base)
          (FileNames.committedPath queue.directory base), failure⟩] ∧
        match failure with
        | some e => outcome = (.error (.commit e), queue) ∧ after.tree = host.tree ∧
            (host.Steady → host.Reaches folder queue.directory →
              Fits queue.directory (asTemporary base) →
              before.lookup (folder ++ [asCommitted base]) = some .directory)
        | none => outcome = (.ok (FileNames.committedPath queue.directory base),
            { queue with size := queue.size + size }) ∧
            Committed folder base record before after.tree)
      (queue.publish (FileNames.temporaryPath queue.directory base) size) host := by
  have proper := FileNames.isProper_withExtension FileNames.temporary_mem_extensions slash
  have proper' := FileNames.isProper_withExtension FileNames.committed_mem_extensions slash
  have changing : Program.Meets (fun _ => True)
      (fun reply after => (∃ e, reply = .error e ∧ after.tree = host.tree ∧
          (host.Steady → host.Reaches folder queue.directory →
            Fits queue.directory (asTemporary base) →
            before.lookup (folder ++ [asCommitted base]) = some .directory)) ∨
        reply = .ok () ∧ Committed folder base record before after.tree)
      (Program.rename (FileNames.temporaryPath queue.directory base)
        (FileNames.committedPath queue.directory base)) host := by
    apply Program.Meets.rename (f := pure) serves trivial proper proper'
      (FileNames.committed_ne_temporary _ _).symm (FileTree.isPlain_of_file sets.lookup_self)
    · intro e after _ same why
      refine Program.Meets.done trivial (.inl ⟨e, rfl, same, ?_⟩)
      intro steady reaches fits
      by_contra notDirectory
      rw [← sets.lookup_sibling (FileNames.committed_ne_temporary base base)] at notDirectory
      have gone := why steady reaches fits (FileNames.fits_asCommitted slash fits) notDirectory
      cases gone.symm.trans sets.lookup_self
    · exact fun after _ _ _ _ _ _ _ notDirectory moves => Program.Meets.done trivial
        (.inr ⟨rfl, committed_of_moves free sets notDirectory moves⟩)
  unfold publish
  simp only [named]
  apply Program.EndsWith.file changing
  rintro reply renamed laterRenamed - (⟨e, rfl, same, why⟩ | ⟨rfl, committed⟩)
  · exact Program.EndsWith.done ⟨some e, rfl, rfl, same, why⟩
  · apply Program.EndsWith.log
    intro told _ _ same
    exact Program.EndsWith.done ⟨none, rfl, rfl, by rwa [same]⟩

/-- Storing a record ends cleanly. Without a fault only a directory under a final name keeps a
record that has been written from being stored. -/
theorem endsWith_commitRecord (record : Bytes) (serves : host.Serves folder queue.directory)
    (reaches : host.Reaches folder queue.directory) (clear : host.FailsOnlyRenames)
    (valid : queue.token.IsValid) :
    Program.EndsWith
      (fun made outcome after => queue.StoredClean folder record host after.tree made outcome ∧
        ∀ e, outcome.1 = .error (.commit e) → host.Steady → ∃ number,
          host.tree.lookup (folder ++ [asCommitted (queue.triedBase host number)])
            = some .directory)
      (queue.commitRecord record) host := by
  apply (endsWith_createStaging maxStagingAttempts reaches clear valid).bind
  intro made outcome staged later drawn
  cases drawn with
  | exhausted occupied tried same =>
    exact Program.EndsWith.done
      ⟨.exhausted occupied (by rw [tried, List.append_nil]) same, nofun⟩
  | unfit number bound occupied unfit e tried same =>
    exact Program.EndsWith.done
      ⟨.unfit number bound occupied unfit e (by rw [tried, List.append_nil]) same, nofun⟩
  | drawn number bound occupied fits free tried modified sets =>
    have slash : Path.slash ∉ queue.triedBase host number := slash_notMem_base valid _ number
    have proper := FileNames.isProper_withExtension FileNames.temporary_mem_extensions slash
    have follows := sets.follows (by simp [free]) serves.isFolder
      (by rintro node ⟨⟩; exact ⟨rfl, proper⟩)
    have serves := serves.follow later follows
    have reaches := reaches.sets later (FileTree.isPlain_of_free free) sets
    have clear := later.failsOnlyRenames clear
    apply (endsWith_writeSynced serves reaches clear proper fits sets.lookup_self).bind
    rintro _ _ written laterWritten ⟨rfl, rfl, modified', again⟩
    have follows := again.follows (by simp [sets.lookup_self]) serves.isFolder
      (by rintro node ⟨⟩; exact ⟨rfl, proper⟩)
    have serves := serves.follow laterWritten follows
    have reaches := reaches.sets laterWritten (FileTree.isPlain_of_file sets.lookup_self) again
    have sets := sets.trans again
    have named : FileNames.baseName? (queue.triedPath host number)
        = some (queue.triedBase host number) :=
      FileNames.baseName?_join_staging queue.directory valid
    apply (endsWith_publish (queue.advance (number + 1)) serves slash named free sets _).mono
    rintro _ outcome renamed - ⟨failure, rfl, published⟩
    have all : made ++ ([⟨.append (queue.triedPath host number) record, none⟩,
          ⟨.sync (queue.triedPath host number), none⟩]
            ++ [⟨queue.publishing host number, failure⟩])
        = queue.writing host record number ++ [⟨queue.publishing host number, failure⟩] := by
      simp [tried, writing]
    cases failure with
    | some e =>
      obtain ⟨rfl, same, why⟩ := published
      refine ⟨.uncommitted number bound occupied free e all modified' (same ▸ sets), ?_⟩
      exact fun _ _ steady =>
        ⟨number, why ((later.trans laterWritten).steady steady) reaches fits⟩
    | none =>
      obtain ⟨rfl, committed⟩ := published
      exact ⟨.stored number bound occupied all committed, nofun⟩

/-- What an attempt to store a payload comes to: a queue that is full refuses it, also if there
is no record for it, and without a record nothing is tried. -/
inductive CleanStore (queue : Queue) (folder : Key) (payload : Payload) (host after : Host)
    (made : List Attempt) : Except QueueError Path × Queue → Prop
  | full (full : queue.capacityBytes ≤ queue.size) (untouched : after = host)
      (nothing : made = []) :
      CleanStore queue folder payload host after made
        (.error (.capacityExceeded queue.capacityMb), queue)
  | unrecorded (e : IoError) (room : queue.size < queue.capacityBytes)
      (none : payload.record = .error e) (untouched : after = host) (nothing : made = []) :
      CleanStore queue folder payload host after made (.error (.staging e), queue)
  | tried (record : Bytes) (outcome : Except QueueError Path × Queue)
      (room : queue.size < queue.capacityBytes) (some : payload.record = .ok record)
      (clean : queue.StoredClean folder record host after.tree made outcome) :
      CleanStore queue folder payload host after made outcome

theorem endsWith_tryEnqueue (payload : Payload) (serves : host.Serves folder queue.directory)
    (reaches : host.Reaches folder queue.directory) (clear : host.FailsOnlyRenames)
    (valid : queue.token.IsValid) :
    Program.EndsWith
      (fun made outcome after => queue.CleanStore folder payload host after made outcome)
      (payload.tryEnqueue queue) host := by
  rw [payload.tryEnqueue_eq]
  unfold tryStore
  by_cases full : queue.capacityBytes ≤ queue.size
  · rw [if_pos (by simpa [isFull] using full)]
    exact Program.EndsWith.done (.full full rfl rfl)
  · rw [if_neg (by simpa [isFull] using full)]
    have room : queue.size < queue.capacityBytes := UInt64.not_le.mp full
    cases encoded : payload.record with
    | error e => exact Program.EndsWith.done (.unrecorded e room encoded rfl rfl)
    | ok record =>
      apply (endsWith_commitRecord record serves reaches clear valid).mono
      exact fun made outcome after _ clean => .tried _ outcome room encoded clean.1

/-- An attempt to store a payload fails cleanly where only a rename can fail: the names of at
most sixteen numbers are tried, each with a time of its own, and what is there is left alone. The
queue refuses for its capacity exactly if the count has reached it. -/
theorem stores_cleanly {payload : Payload} {outcome : Except QueueError Path × Queue}
    (serves : host.Serves folder queue.directory) (reaches : host.Reaches folder queue.directory)
    (clear : host.FailsOnlyRenames) (valid : queue.token.IsValid)
    (ran : (payload.tryEnqueue queue).run host = (outcome, after)) :
    queue.CleanStore folder payload host after ((payload.tryEnqueue queue).attempts host) outcome ∧
    ((∃ megabytes, outcome.1 = .error (.capacityExceeded megabytes)) ↔
      queue.capacityBytes ≤ queue.size) := by
  have clean := endsWith_tryEnqueue payload serves reaches clear valid
  rw [Program.EndsWith, ran] at clean
  refine ⟨clean, ?_⟩
  cases clean with
  | full full => exact ⟨fun _ => full, fun _ => ⟨_, rfl⟩⟩
  | unrecorded e room =>
    exact ⟨by simp, fun full => absurd full (UInt64.not_le.mpr room)⟩
  | tried record _ room some clean =>
    refine ⟨?_, fun full => absurd full (UInt64.not_le.mpr room)⟩
    rintro ⟨megabytes, refused⟩
    cases clean <;> cases refused

/-- The first temporary name belongs to a file and the second one to a directory. The third one
is free, but its final name belongs to a directory: the temporary file keeps the whole record. -/
theorem stores_cleanly_of_obstacles :
    let queue : Queue := .ofDefaults [Path.slash] ⟨"abcdefgh"⟩ 0
    let drawn := queue.base 1700000000123
    let tree := ((FileTree.empty.insert ([] ++ [asTemporary (drawn 0)]) (.file [7] 0)).insert
      ([] ++ [asTemporary (drawn 1)]) .directory).insert ([] ++ [asCommitted (drawn 2)]) .directory
    let host := Host.quiet tree [] 1700000000123 (.start 0)
    let payload : Payload := .bare [1, 2]
    ∃ after record, payload.record = .ok record ∧
      (payload.tryEnqueue queue).run host
        = ((.error (.commit .isDirectory), queue.advance 3), after) ∧
      queue.CleanStore [] payload host after ((payload.tryEnqueue queue).attempts host)
        (.error (.commit .isDirectory), queue.advance 3) ∧
      after.tree.lookup [asTemporary (drawn 2)] = some (.file record 1700000000123) ∧
      after.tree.lookup [asTemporary (drawn 0)] = some (.file [7] 0) := by
  intro queue drawn tree host payload
  have proper : ∀ number, ∀ extension ∈ FileNames.extensions,
      (FileNames.withExtension (drawn number) extension).IsProper :=
    fun number extension mem => isProper_base (by decide) _ number mem
  have offers : host.Offers [] := by
    refine ⟨?_, by decide +kernel, by decide +kernel⟩
    have empty := (Host.offers_quiet 0 (.start 0)).wellFormed
    refine FileTree.WellFormed.insert ?_ (proper 2 _ FileNames.committed_mem_extensions) rfl
      (by decide +kernel) _
    refine FileTree.WellFormed.insert ?_ (proper 1 _ FileNames.temporary_mem_extensions) rfl
      (by decide +kernel) _
    exact empty.insert (proper 0 _ FileNames.temporary_mem_extensions) rfl (by decide +kernel) _
  have reaches : host.Reaches [] queue.directory := by decide +kernel
  have ran : (payload.tryEnqueue queue).run host
      = ((.error (.commit .isDirectory), queue.advance 3),
        ((payload.tryEnqueue queue).run host).2) := Program.run_eq (by decide +kernel)
  have clean := stores_cleanly (offers.serves reaches) reaches (fun _ _ _ => rfl) (by decide) ran
  exact ⟨_, _, rfl, ran, clean.1, by decide +kernel, by decide +kernel⟩

end Queue
end DiskQueue
