/-
Module: DiskQueue.Proofs.AllOrNothing
Purpose: An attempt to take a record leaves everything as it is, or takes exactly one
  record, whichever of its operations fail.
Trusted boundary: none
Main exports:
  Candidates.Near, Queue.Removal, Queue.Consumed, Queue.TakenWhole,
  Queue.all_or_nothing
-/
import DiskQueue.Proofs.Attempts
import DiskQueue.Proofs.Claiming
import DiskQueue.Proofs.Draining

namespace DiskQueue

open FileTree (Fits Sets Moves Took)
open FileNames (asCommitted asTemporary)

/-!
Taking a record is a list of the directory, a question about the file, a change of its
name, a look at its content and attempts to remove it. Up to the change of the name a
failure ends the attempt and nothing has happened. From then on the record is taken, and
what fails later shows in the answer at most: a file that cannot be read is an error, and
one that cannot be removed stays under its temporary name.
-/

/-! ### Batches -/

namespace Candidates

variable {folder : Key} {directory : Path} {tree : FileTree} {candidates : Candidates}

/-- Every path of the batch names a record of the directory, whether or not it is there, and
whatever is claimed. -/
def Near (directory : Path) (candidates : Candidates) : Prop :=
  ∀ path ∈ candidates.batch, ∃ base, base ≠ [] ∧ Path.slash ∉ base ∧
    path = FileNames.committedPath directory base

theorem Sound.near (h : candidates.Sound folder directory tree) : candidates.Near directory := by
  intro path mem
  obtain ⟨base, nonempty, slash, eq, -⟩ := h.batch path mem
  exact ⟨base, nonempty, slash, eq⟩

/-- A batch that has been made anew holds names that are listed. -/
theorem Near.refreshed (h : candidates.Near directory) (wf : tree.WellFormed) :
    (candidates.refreshed tree folder directory).Near directory := by
  unfold Candidates.refreshed
  split
  · intro path mem
    obtain ⟨name, listed, rfl⟩ := List.mem_map.mp (mem_of_mem_batchOf mem)
    obtain ⟨base, nonempty, slash, rfl, -⟩ := Stored.exists_base wf listed
    exact ⟨base, nonempty, slash, rfl⟩
  · exact h

/-- What is left of a batch is part of it. -/
theorem Near.next (h : candidates.Near directory) : candidates.next.2.Near directory := by
  have tried := candidates.tried_next
  generalize candidates.next = outcome at tried ⊢
  cases tried with
  | nothing empty => exact h
  | dropped path rest batch why | claimed path rest base batch name free =>
    exact fun other mem => h other (batch ▸ List.mem_cons_of_mem path mem)

/-- A claim is on a record of the directory. -/
theorem Near.eq_of_next (h : candidates.Near directory) {claim : Claim}
    (claimed : candidates.next.1 = some claim) :
    Path.slash ∉ claim.base ∧
      claim = ⟨FileNames.committedPath directory claim.base, claim.base⟩ := by
  have tried := candidates.tried_next
  generalize candidates.next = outcome at tried claimed
  cases tried with
  | nothing empty => cases claimed
  | dropped path rest batch why => cases claimed
  | claimed path rest read batch name free =>
    cases claimed
    obtain ⟨base, nonempty, slash, rfl⟩ := h path (batch ▸ List.mem_cons_self)
    cases FileNames.eq_of_baseName?_join nonempty slash FileNames.committed_mem_extensions name
    exact ⟨slash, rfl⟩

/-- A name that has been claimed and is given back leaves the names from before. -/
theorem claimed_release {claimed : Candidates} {base : Name} (free : base ∉ candidates.claimed)
    (more : claimed.claimed = base :: candidates.claimed) :
    (claimed.release base).claimed = candidates.claimed := by
  have others : ∀ other ∈ candidates.claimed, decide (other ≠ base) = true := by
    intro other mem
    exact decide_eq_true fun same => free (same ▸ mem)
  rw [release, more, List.filter_cons_of_neg (by simp), List.filter_eq_self.mpr others]

/-- Claiming a name of the batch attempts nothing. -/
theorem endsWith_pop (candidates : Candidates) (host : Host) :
    Program.EndsWith (fun made _ _ => made = []) candidates.pop host := by
  unfold pop
  cases batch : candidates.batch with
  | nil => exact Program.EndsWith.done rfl
  | cons path rest =>
    cases name : FileNames.baseName? path with
    | none =>
      simp only [name]
      exact Program.EndsWith.done rfl
    | some base =>
      simp only [name]
      split
      · exact Program.EndsWith.log _ _ fun after _ _ _ => Program.EndsWith.done rfl
      · exact Program.EndsWith.done rfl

/-- Making a batch anew attempts one list of the directory, and fails only with it. -/
theorem endsWith_refill (candidates : Candidates) (directory : Path) (host : Host) :
    Program.EndsWith
      (fun made result _ => made = [⟨.list directory, Attempt.failure? result⟩])
      (candidates.refill directory) host := by
  have naming : Program.EndsWith
      (fun made result _ => made = [⟨.list directory, Attempt.failure? result⟩])
      (Stored.names directory FileNames.committed) host := by
    have listing : Program.Meets (fun _ => True) (fun _ _ => True) (Program.list directory) host :=
      ⟨fun _ => trivial, trivial⟩
    apply Program.EndsWith.file listing
    intro reply after later _ _
    cases reply <;> exact Program.EndsWith.done rfl
  have finding : Program.EndsWith
      (fun made result _ => made = [⟨.list directory, Attempt.failure? result⟩])
      (Stored.paths directory FileNames.committed) host := by
    apply naming.bind
    rintro _ result after later rfl
    cases result <;> exact Program.EndsWith.done rfl
  apply finding.bind
  rintro _ result after later rfl
  cases result with
  | error e => exact Program.EndsWith.done rfl
  | ok paths => exact Program.EndsWith.log _ _ fun told _ _ _ => Program.EndsWith.done rfl

/-- Only an empty batch asks for a list, and claiming fails only with it. -/
theorem endsWith_take (candidates : Candidates) (directory : Path) (host : Host) :
    Program.EndsWith
      (fun made outcome _ => (∀ attempt ∈ made, attempt.op = .list directory) ∧
        ∀ e, outcome.1 = .error e → ⟨.list directory, some e⟩ ∈ made)
      (candidates.take directory) host := by
  unfold take
  split
  · apply (endsWith_refill candidates directory host).bind
    rintro _ result after later rfl
    cases result with
    | error e => exact Program.EndsWith.done ⟨by simp, by simp [Attempt.failure?]⟩
    | ok refilled =>
      apply (endsWith_pop refilled after).bind
      rintro _ outcome popped laterPopped rfl
      exact Program.EndsWith.done ⟨by simp, by simp⟩
  · apply (endsWith_pop candidates host).bind
    rintro _ outcome after later rfl
    exact Program.EndsWith.done ⟨by simp, by simp⟩

end Candidates

/-! ### Removing -/

/-- An operation has been attempted, and every attempt at it has failed. -/
def Attempt.AllFailed (op : FileOp) (made : List Attempt) : Prop :=
  (∃ e, ⟨op, some e⟩ ∈ made) ∧ ⟨op, none⟩ ∉ made

namespace Queue

variable {folder : Key} {directory : Path} {host : Host} {queue : Queue} {name base : Name}

/-- What removing an entry comes to: it is gone, or nothing but attempts have been made. -/
inductive Removal (folder : Key) (name : Name) (path : Path) (before after : FileTree)
    (made : List Attempt) : Prop
  | removed (sets : Sets folder name none before after)
  | kept (same : after = before) (some : ∃ e, ⟨.remove path, .some e⟩ ∈ made)
      (all : ∀ attempt ∈ made, ∃ e, attempt = ⟨.remove path, .some e⟩)

/-- Attempts that have failed before make no difference. -/
theorem Removal.after {path : Path} {before mid after : FileTree} {e : IoError}
    {made : List Attempt} (same : mid = before) (h : Removal folder name path mid after made) :
    Removal folder name path before after (⟨.remove path, some e⟩ :: made) := by
  subst same
  cases h with
  | removed sets => exact .removed sets
  | kept same some all =>
    refine .kept same ⟨e, List.mem_cons_self⟩ ?_
    intro attempt mem
    rcases List.mem_cons.mp mem with rfl | mem
    · exact ⟨e, rfl⟩
    · exact all attempt mem

theorem Removal.failed {path : Path} {before after : FileTree} (e : IoError)
    (same : after = before) : Removal folder name path before after [⟨.remove path, some e⟩] :=
  .kept same ⟨e, List.mem_cons_self⟩ (by simp)

/-- The path leads to a file, and nothing fails without a reason in the tree. -/
structure Yields (folder : Key) (directory : Path) (name : Name) (host : Host) : Prop where
  faultless : host.Faultless
  reaches : host.Reaches folder directory
  fits : Fits directory name
  isFile : ∃ content modified, host.tree.lookup (folder ++ [name]) = some (.file content modified)

theorem Yields.unchanged (h : Yields folder directory name host) (later : host.Later after)
    (same : after.tree = host.tree) : Yields folder directory name after :=
  ⟨later.faultless h.faultless, (later.reaches_iff same).mpr h.reaches, h.fits, same ▸ h.isFile⟩

theorem endsWith_removeOnce (serves : host.Serves folder directory) (hname : name.IsProper) :
    Program.EndsWith
      (fun made result after => result = .ok () ∧ Sets folder name none host.tree after.tree ∨
        after.tree = host.tree ∧ ¬ Yields folder directory name host ∧
          ∃ e, made = [⟨.remove (directory.join name), some e⟩])
      (removeOnce (directory.join name)) host := by
  have removing : Program.Meets (fun _ => True)
      (fun reply after => reply = .ok () ∧ Sets folder name none host.tree after.tree ∨
        after.tree = host.tree ∧ ¬ Yields folder directory name host ∧ ∃ e, reply = .error e)
      (Program.remove (directory.join name)) host := by
    apply Program.Meets.remove (f := pure) serves trivial hname
    · intro e after later same why
      refine Program.Meets.done trivial (.inr ⟨same, ?_, e, rfl⟩)
      rintro ⟨faultless, reaches, fits, content, modified, there⟩
      cases why (faultless _ _) reaches fits _ there
    · exact fun after node later _ _ sets => Program.Meets.done trivial (.inl ⟨rfl, sets⟩)
  apply Program.EndsWith.file removing
  rintro reply after later - (⟨rfl, sets⟩ | ⟨same, refused, e, rfl⟩)
  · exact Program.EndsWith.done (.inl ⟨rfl, sets⟩)
  · dsimp only
    split
    · exact Program.EndsWith.done (.inr ⟨same, refused, e, rfl⟩)
    · exact Program.EndsWith.done (.inr ⟨same, refused, e, rfl⟩)

/-- Waiting for the next attempt leaves the files alone. -/
theorem endsWith_beforeNextAttempt (pauseMs : UInt64) (host : Host) :
    Program.EndsWith (fun made _ after => made = [] ∧ after.tree = host.tree)
      (beforeNextAttempt pauseMs) host := by
  apply Program.EndsWith.log
  intro after later _ same
  split
  · exact Program.EndsWith.done ⟨rfl, same⟩
  · exact ⟨rfl, same⟩

/-- What can be got hold of is removed by the first attempt. -/
theorem endsWith_runFrom (policy : RetryPolicy) (serves : host.Serves folder directory)
    (hname : name.IsProper) (more : Nat) (number : UInt32) :
    Program.EndsWith
      (fun made _ after =>
        Removal folder name (directory.join name) host.tree after.tree made ∧
          (Yields folder directory name host → Sets folder name none host.tree after.tree))
      (RetryPolicy.runFrom (fun _ _ => beforeNextAttempt policy.pauseMs)
        (fun _ => removeOnce (directory.join name)) more number) host := by
  induction more generalizing host number with
  | zero =>
    apply (endsWith_removeOnce serves hname).bind
    rintro made result after later (⟨rfl, sets⟩ | ⟨same, refused, e, rfl⟩)
    · exact Program.EndsWith.done ⟨.removed sets, fun _ => sets⟩
    · cases result <;> exact Program.EndsWith.done ⟨.failed e same, (absurd · refused)⟩
  | succ more ih =>
    apply (endsWith_removeOnce serves hname).bind
    rintro made result after later (⟨rfl, sets⟩ | ⟨same, refused, e, rfl⟩)
    · exact Program.EndsWith.done ⟨.removed sets, fun _ => sets⟩
    cases result with
    | ok done => exact Program.EndsWith.done ⟨.failed e same, (absurd · refused)⟩
    | error last =>
      apply (endsWith_beforeNextAttempt policy.pauseMs after).bind
      rintro _ _ before laterBefore ⟨rfl, sameBefore⟩
      have serves := serves.unchanged (later.trans laterBefore) (sameBefore.trans same)
      apply (ih serves (number + 1)).mono
      exact fun made _ gone _ removal =>
        ⟨removal.1.after (sameBefore.trans same), (absurd · refused)⟩

/-- Removing what has been taken comes to the attempts that the policy allows. -/
theorem endsWith_discard (queue : Queue) (serves : host.Serves folder directory)
    (hname : name.IsProper) :
    Program.EndsWith
      (fun made _ after =>
        Removal folder name (directory.join name) host.tree after.tree made ∧
          (Yields folder directory name host → Sets folder name none host.tree after.tree))
      (queue.discard (directory.join name)) host := by
  have removal : Program.EndsWith
      (fun made _ after =>
        Removal folder name (directory.join name) host.tree after.tree made ∧
          (Yields folder directory name host → Sets folder name none host.tree after.tree))
      (queue.removeConsumed (directory.join name)) host := by
    apply (endsWith_runFrom queue.deleteRetry serves hname _ _).bind
    intro made result after later removal
    cases result <;> exact Program.EndsWith.done (by rwa [List.append_nil])
  apply removal.bind
  intro made result after later removal
  cases result with
  | ok done => exact Program.EndsWith.done (by rwa [List.append_nil])
  | error e =>
    show Program.EndsWith _ (Program.log _ _ >>= pure) after
    apply Program.EndsWith.log
    intro told laterTold _ same
    exact Program.EndsWith.done (by rwa [List.append_nil, same])

/-! ### A record that is taken -/

/-- What taking a record answers if its file can be read, and if it cannot. -/
def answered (content : Bytes) (inFlight : Path) : Option IoError → Except QueueError Transmission
  | none => Stored.decoded content
  | some e => .error (.read inFlight e)

/-- A record has been taken: its name is gone, what is answered is the file as it was, and
under the temporary name there is nothing unless every attempt to remove the file has failed. -/
structure TakenWhole (directory : Path) (folder : Key) (base : Name) (content : Bytes)
    (host after : Host) (made : List Attempt) (readFailure : Option IoError) : Prop where
  took : Took folder base content host.tree after.tree
  read : ⟨.read (FileNames.temporaryPath directory base), readFailure⟩ ∈ made
  readable : host.Steady → KeptInReach host folder directory base → readFailure = none
  left : after.tree.lookup (folder ++ [asTemporary base]) = none ∨
    (∃ modified, after.tree.lookup (folder ++ [asTemporary base])
      = some (.file content modified)) ∧
    Attempt.AllFailed (.remove (FileNames.temporaryPath directory base)) made

theorem endsWith_readRecord {content : Bytes} {modified : Int}
    (serves : host.Serves folder directory) (hname : name.IsProper)
    (there : host.tree.lookup (folder ++ [name]) = some (.file content modified)) :
    Program.EndsWith
      (fun made result after => after.tree = host.tree ∧ ∃ failure,
        made = [⟨.read (directory.join name), failure⟩] ∧
        result = answered content (directory.join name) failure ∧
        (host.Steady → host.Reaches folder directory → Fits directory name → failure = none))
      (Stored.readRecord (directory.join name)) host := by
  have reading : Program.Meets (fun _ => True)
      (fun reply after => after.tree = host.tree ∧
        (reply = .ok content ∨ (∃ e, reply = .error e) ∧
          (host.Steady → host.Reaches folder directory → ¬ Fits directory name)))
      (Program.read (directory.join name)) host := by
    apply Program.Meets.read (f := pure) serves trivial hname there
    · exact fun e after later same why => Program.Meets.done trivial ⟨same, .inr ⟨⟨e, rfl⟩, why⟩⟩
    · exact fun after later same => Program.Meets.done trivial ⟨same, .inl rfl⟩
  apply Program.EndsWith.file reading
  rintro reply after later - ⟨same, rfl | ⟨⟨e, rfl⟩, why⟩⟩
  · cases read : Record.decode content with
    | error e =>
      simp only [read]
      refine Program.EndsWith.done ⟨same, none, rfl, ?_, fun _ _ _ => rfl⟩
      rw [answered, Stored.decoded, read]
    | ok transmission =>
      simp only [read]
      refine Program.EndsWith.done ⟨same, none, rfl, ?_, fun _ _ _ => rfl⟩
      rw [answered, Stored.decoded, read]
  · refine Program.EndsWith.done ⟨same, some e, rfl, rfl, ?_⟩
    exact fun steady reaches fits => absurd fits (why steady reaches)

theorem endsWith_finish (queue : Queue) {content : Bytes} {modified : Int}
    (serves : host.Serves folder directory) (hname : name.IsProper)
    (there : host.tree.lookup (folder ++ [name]) = some (.file content modified)) :
    Program.EndsWith
      (fun made result after => ∃ failure removals,
        made = ⟨.read (directory.join name), failure⟩ :: removals ∧
        result = (answered content (directory.join name) failure).map some ∧
        (host.Steady → host.Reaches folder directory → Fits directory name → failure = none) ∧
        Removal folder name (directory.join name) host.tree after.tree removals ∧
        (Yields folder directory name host → Sets folder name none host.tree after.tree))
      (queue.finish (directory.join name)) host := by
  apply (endsWith_readRecord serves hname there).bind
  rintro _ result read later ⟨same, failure, rfl, rfl, why⟩
  apply (endsWith_discard queue (serves.unchanged later same) hname).bind
  rintro removals _ gone laterGone ⟨removal, freed⟩
  rw [same] at removal freed
  apply Program.EndsWith.log
  intro told laterTold _ sameTold
  rw [← sameTold] at removal freed
  exact Program.EndsWith.done ⟨failure, removals, by simp, rfl, why, removal,
    fun yields => freed (yields.unchanged later same)⟩

/-- What taking the record of a claim comes to: its file is not there or does not give up its
name, and nothing changes, or the record has been taken. -/
inductive Consumed (queue : Queue) (folder : Key) (base : Name) (host after : Host)
    (made : List Attempt) : Except QueueError (Option Transmission) × Queue → Prop
  | failed (op : FileOp) (e : IoError)
      (asked : op = .stat (FileNames.committedPath queue.directory base) ∨
        op = .rename (FileNames.committedPath queue.directory base)
          (FileNames.temporaryPath queue.directory base))
      (mem : ⟨op, some e⟩ ∈ made) (same : after.tree = host.tree) :
      Consumed queue folder base host after made
        (.error (.read (FileNames.committedPath queue.directory base) e), queue)
  | taken (content : Bytes) (readFailure : Option IoError)
      (whole : TakenWhole queue.directory folder base content host after made readFailure) :
      Consumed queue folder base host after made
        ((answered content (FileNames.temporaryPath queue.directory base) readFailure).map some,
          { queue with size := Saturating.sub queue.size (UInt64.ofNat content.length) })

/-- What is asked about a record is answered from its file. -/
theorem meets_statRecord (serves : host.Serves folder directory) (slash : Path.slash ∉ base)
    (plain : host.tree.IsPlain folder (asCommitted base)) :
    Program.Meets (fun _ => True)
      (fun reply after => after.tree = host.tree ∧ ((∃ e, reply = .error e) ∨
        ∃ content modified, reply = .ok ⟨.file, content.length, modified⟩ ∧
          host.tree.lookup (folder ++ [asCommitted base]) = some (.file content modified)))
      (Program.stat (FileNames.committedPath directory base)) host := by
  have proper := FileNames.isProper_withExtension FileNames.committed_mem_extensions slash
  apply Program.Meets.stat (f := pure) serves trivial proper plain
  · exact fun e after later _ same _ => Program.Meets.done trivial ⟨same, .inl ⟨e, rfl⟩⟩
  · exact fun after content modified later same there =>
      Program.Meets.done trivial ⟨same, .inr ⟨content, modified, rfl, there⟩⟩

/-- The name of a record is made temporary, or nothing changes. -/
theorem meets_renameRecord (serves : host.Serves folder directory) (slash : Path.slash ∉ base)
    (plain : host.tree.IsPlain folder (asCommitted base)) :
    Program.Meets (fun _ => True)
      (fun reply after => (after.tree = host.tree ∧ ∃ e, reply = .error e) ∨
        reply = .ok () ∧ host.Reaches folder directory ∧ Fits directory (asTemporary base) ∧
          host.tree.lookup (folder ++ [asTemporary base]) ≠ some .directory ∧
          Moves folder (asCommitted base) (asTemporary base) host.tree after.tree)
      (Program.rename (FileNames.committedPath directory base)
        (FileNames.temporaryPath directory base)) host := by
  have proper := FileNames.isProper_withExtension FileNames.committed_mem_extensions slash
  have proper' := FileNames.isProper_withExtension FileNames.temporary_mem_extensions slash
  apply Program.Meets.rename (f := pure) serves trivial proper proper'
    (FileNames.committed_ne_temporary base base) plain
  · exact fun e after _ same _ => Program.Meets.done trivial (.inl ⟨same, e, rfl⟩)
  · exact fun after _ _ _ reaches _ fits _ notDirectory moves =>
      Program.Meets.done trivial (.inr ⟨rfl, reaches, fits, notDirectory, moves⟩)

/-- A record whose name has been made temporary is taken by reading and removing its file. -/
theorem TakenWhole.of_removal {content : Bytes} {modified : Int} {renamed after : Host}
    {readFailure : Option IoError} {before removals : List Attempt}
    (took : Took folder base content host.tree renamed.tree)
    (staged : renamed.tree.lookup (folder ++ [asTemporary base])
      = some (.file content modified))
    (readable : host.Steady → KeptInReach host folder directory base → readFailure = none)
    (others : ∀ attempt ∈ before, attempt.op ≠ .remove (FileNames.temporaryPath directory base))
    (removal : Removal folder (asTemporary base) (FileNames.temporaryPath directory base)
      renamed.tree after.tree removals) :
    TakenWhole directory folder base content host after
      (before ++ ⟨.read (FileNames.temporaryPath directory base), readFailure⟩ :: removals)
      readFailure where
  took := by
    cases removal with
    | removed sets => exact took.trans sets
    | kept same => rwa [same]
  read := List.mem_append_right _ List.mem_cons_self
  readable := readable
  left := by
    cases removal with
    | removed sets => exact .inl sets.lookup_self
    | kept same some all =>
      refine .inr ⟨⟨modified, by rw [same, staged]⟩, ?_, ?_⟩
      · obtain ⟨e, mem⟩ := some
        exact ⟨e, List.mem_append_right _ (List.mem_cons_of_mem _ mem)⟩
      · intro succeeded
        rcases List.mem_append.mp succeeded with early | late
        · exact others _ early rfl
        rcases List.mem_cons.mp late with read | removed
        · cases read
        · obtain ⟨e, eq⟩ := all _ removed
          cases eq

theorem endsWith_consume (queue : Queue) (serves : host.Serves folder queue.directory)
    (slash : Path.slash ∉ base) (plain : host.tree.IsPlain folder (asCommitted base)) :
    Program.EndsWith (fun made outcome after => Consumed queue folder base host after made outcome)
      (queue.consume ⟨FileNames.committedPath queue.directory base, base⟩) host := by
  apply Program.EndsWith.file (meets_statRecord serves slash plain)
  rintro reply found later - ⟨same, ⟨e, rfl⟩ | ⟨content, modified, rfl, there⟩⟩
  · exact Program.EndsWith.done (.failed _ e (.inl rfl) List.mem_cons_self same)
  apply Program.EndsWith.file
    (meets_renameRecord (serves.unchanged later same) slash (by rwa [same]))
  rintro reply renamed laterRenamed -
    (⟨unchanged, e, rfl⟩ | ⟨rfl, reaches, fits, notDirectory, moves⟩)
  · exact Program.EndsWith.done (.failed _ e (.inr rfl)
      (List.mem_cons_of_mem _ List.mem_cons_self) (unchanged.trans same))
  rw [later.reaches_iff same] at reaches
  rw [same] at notDirectory moves
  have later := later.trans laterRenamed
  have took := FileTree.took_of_moves there notDirectory moves
  have serves := serves.follow later (took.follows serves.isFolder slash)
  have staged : renamed.tree.lookup (folder ++ [asTemporary base])
      = some (.file content modified) := by
    rw [moves, if_pos rfl, there]
  have proper := FileNames.isProper_withExtension FileNames.temporary_mem_extensions slash
  apply (endsWith_finish queue serves proper staged).map
  rintro _ result after laterAfter ⟨failure, removals, rfl, rfl, why, removal, -⟩
  refine .taken content failure ?_
  show TakenWhole queue.directory folder base content host after ([_, _] ++ _) failure
  refine .of_removal took staged ?_ ?_ removal
  · intro steady kept
    refine why (later.steady steady) ?_ fits
    rw [Host.Reaches, later.directory]
    exact kept reaches renamed.tree moves
  · simp [Attempt.of]

/-! ### The next record -/

/-- What an attempt to take the next record comes to. -/
inductive AllOrNothing (queue : Queue) (folder : Key) (host after : Host)
    (made : List Attempt) : Except QueueError (Option Transmission) × Queue → Prop
  | nothing (left : Queue) (same : after.tree = host.tree) (size : left.size = queue.size) :
      AllOrNothing queue folder host after made (.ok none, left)
  | failed (op : FileOp) (path : Path) (e : IoError) (left : Queue)
      (asked : op = .list queue.directory ∧ path = queue.directory ∨
        ∃ base, path = FileNames.committedPath queue.directory base ∧ (op = .stat path ∨
          op = .rename path (FileNames.temporaryPath queue.directory base)))
      (mem : ⟨op, some e⟩ ∈ made) (same : after.tree = host.tree)
      (size : left.size = queue.size) :
      AllOrNothing queue folder host after made (.error (.read path e), left)
  | taken (base : Name) (content : Bytes) (readFailure : Option IoError) (left : Queue)
      (claim : (queue.candidates.refreshed host.tree folder queue.directory).next.1
        = some ⟨FileNames.committedPath queue.directory base, base⟩)
      (whole : TakenWhole queue.directory folder base content host after made readFailure)
      (size : left.size = Saturating.sub queue.size (UInt64.ofNat content.length))
      (counted : content.length < 2 ^ 64 →
        left.size.toNat = queue.size.toNat - content.length) :
      AllOrNothing queue folder host after made
        ((answered content (FileNames.temporaryPath queue.directory base) readFailure).map some,
          left)

/-- Whoever has a claim is given an error or what could be read, and the candidates are left
alone. -/
theorem run_consume (queue : Queue) (claim : Claim) (host : Host) :
    ∃ size, ((queue.consume claim).run host).1.2 = { queue with size := size } ∧
      ((∃ e, ((queue.consume claim).run host).1.1 = .error e) ∨
        ∃ read, ((queue.consume claim).run host).1.1 = Except.map some read) := by
  unfold consume
  rw [Program.run_andThen]
  cases ((Program.stat claim.path).run host).1 with
  | error e => exact ⟨queue.size, rfl, .inl ⟨_, rfl⟩⟩
  | ok found =>
    dsimp only
    rw [Program.run_andThen]
    cases ((Program.rename claim.path
        (FileNames.temporaryPath queue.directory claim.base)).run _).1 with
    | error e => exact ⟨queue.size, rfl, .inl ⟨_, rfl⟩⟩
    | ok done =>
      dsimp only
      rw [Program.run_andThen, finish, Program.run_andThen, Program.run_andThen]
      exact ⟨_, rfl, .inr ⟨_, rfl⟩⟩

/-- However an attempt to take a record ends, the claimed names are those from before. -/
theorem claimed_tryDequeue (queue : Queue) (host : Host) :
    (queue.tryDequeue.run host).1.2.candidates.claimed = queue.candidates.claimed := by
  have claims := Candidates.claims_take queue.candidates queue.directory host
  unfold tryDequeue
  rw [Program.run_andThen]
  generalize (queue.candidates.take queue.directory).run host = taking at claims ⊢
  obtain ⟨outcome, taken⟩ := taking
  cases claims with
  | failed e => rfl
  | nothing after same => exact same
  | claimed claim after free more =>
    dsimp only
    rw [Program.run_andThen]
    obtain ⟨size, kept, -⟩ := run_consume { queue with candidates := after } claim taken
    exact (congrArg (fun left : Queue => (left.release claim).candidates.claimed) kept).trans
      (Candidates.claimed_release free more)

/-- Whatever becomes of a claim, the batch is what is left of the one it was taken from. -/
theorem near_tryDequeue (serves : host.Serves folder queue.directory)
    (near : queue.candidates.Near queue.directory) :
    (queue.tryDequeue.run host).1.2.candidates.Near queue.directory := by
  have left : (queue.candidates.refreshed host.tree folder queue.directory).next.2.Near
      queue.directory := (near.refreshed serves.wellFormed).next
  have looked : Program.Meets (fun _ => True) _ _ host :=
    Candidates.meets_take queue.candidates serves trivial
  obtain ⟨-, outcome⟩ := looked.run
  unfold tryDequeue
  rw [Program.run_andThen]
  generalize (queue.candidates.take queue.directory).run host = taking at outcome ⊢
  obtain ⟨taken, after⟩ := taking
  rcases outcome with ⟨e, rfl, -⟩ | rfl
  · exact near
  cases claim : (queue.candidates.refreshed host.tree folder queue.directory).next.1 with
  | none => exact left
  | some found =>
    dsimp only
    rw [Program.run_andThen]
    obtain ⟨size, kept, -⟩ := run_consume { queue with
      candidates := (queue.candidates.refreshed host.tree folder queue.directory).next.2 }
        found after
    intro path mem
    exact left path ((congrArg (fun left : Queue => left.candidates.batch) kept).subst mem)

/-- Listing the directory before makes no difference. -/
theorem TakenWhole.of_same {content : Bytes} {mid after : Host} {listing made : List Attempt}
    {readFailure : Option IoError} (later : host.Later mid) (same : mid.tree = host.tree)
    (lists : ∀ attempt ∈ listing, attempt.op = .list directory)
    (h : TakenWhole directory folder base content mid after made readFailure) :
    TakenWhole directory folder base content host after (listing ++ made) readFailure where
  took := same ▸ h.took
  read := List.mem_append_right _ h.read
  readable steady kept := by
    refine h.readable (later.steady steady) ?_
    intro reaches tree moves
    rw [later.reaches_iff same] at reaches
    rw [same] at moves
    rw [later.directory]
    exact kept reaches tree moves
  left := by
    apply h.left.imp_right
    rintro ⟨stays, ⟨e, mem⟩, failed⟩
    refine ⟨stays, ⟨e, List.mem_append_right _ mem⟩, fun success => ?_⟩
    rcases List.mem_append.mp success with listed | made
    · cases lists _ listed
    · exact failed made

theorem endsWith_tryDequeue (serves : host.Serves folder queue.directory)
    (near : queue.candidates.Near queue.directory)
    (plain : ∀ base, (queue.candidates.refreshed host.tree folder queue.directory).next.1
        = some ⟨FileNames.committedPath queue.directory base, base⟩ →
      host.tree.IsPlain folder (asCommitted base)) :
    Program.EndsWith
      (fun made outcome after => AllOrNothing queue folder host after made outcome)
      queue.tryDequeue host := by
  have looked : Program.Meets (fun _ => True) _ _ host :=
    Candidates.meets_take queue.candidates serves trivial
  apply ((Candidates.endsWith_take queue.candidates queue.directory host).and looked).bind
  rintro listing outcome taken later ⟨⟨lists, failing⟩, same, ⟨e, rfl, -⟩ | rfl⟩
  · refine Program.EndsWith.done (.failed _ _ e _ (.inl ⟨rfl, rfl⟩) ?_ same rfl)
    rw [List.append_nil]
    exact failing e rfl
  cases claim : (queue.candidates.refreshed host.tree folder queue.directory).next.1 with
  | none => exact Program.EndsWith.done (.nothing _ same rfl)
  | some found =>
    obtain ⟨slash, eq⟩ := (near.refreshed serves.wellFormed).eq_of_next claim
    generalize found.base = base at slash eq
    subst eq
    have consuming := endsWith_consume { queue with
        candidates := (queue.candidates.refreshed host.tree folder queue.directory).next.2 }
      (serves.unchanged later same) slash (by rw [same]; exact plain base claim)
    apply consuming.map
    intro made outcome after laterAfter consumed
    cases consumed with
    | failed op e asked mem unchanged =>
      exact .failed op _ e _ (.inr ⟨base, rfl, asked⟩) (List.mem_append_right _ mem)
        (unchanged.trans same) rfl
    | taken content readFailure whole =>
      refine .taken base content readFailure _ claim (whole.of_same later same lists) rfl ?_
      intro short
      show (Saturating.sub queue.size (UInt64.ofNat content.length)).toNat = _
      rw [Saturating.toNat_sub, UInt64.toNat_ofNat_of_lt' short]

/-- An attempt to take a record is all or nothing, whatever fails, if the path that is claimed
leads to a file or to nothing. In any case the claimed names are those from before, and the
batch is one of records of the directory again. -/
theorem all_or_nothing {result : Except QueueError (Option Transmission)} {left : Queue}
    {after : Host} (serves : host.Serves folder queue.directory)
    (near : queue.candidates.Near queue.directory)
    (ran : queue.tryDequeue.run host = ((result, left), after)) :
    ((∀ base, (queue.candidates.refreshed host.tree folder queue.directory).next.1
          = some ⟨FileNames.committedPath queue.directory base, base⟩ →
        host.tree.IsPlain folder (asCommitted base)) →
      AllOrNothing queue folder host after (queue.tryDequeue.attempts host) (result, left)) ∧
    left.candidates.claimed = queue.candidates.claimed ∧
    left.candidates.Near queue.directory := by
  have whole := endsWith_tryDequeue serves near
  have claimed := claimed_tryDequeue queue host
  have batch := near_tryDequeue serves near
  rw [Program.EndsWith, ran] at whole
  rw [ran] at claimed batch
  exact ⟨whole, claimed, batch⟩

/-- A record is taken while no file can be removed and another name is claimed: it is answered,
and its file stays under the temporary name. -/
theorem all_or_nothing_of_failing_removal :
    let stuck : FileOp → Option IoError := fun op =>
      match op with
      | .remove _ => some .busy
      | _ => none
    let host : Host :=
      { Host.quiet (recordAlone [0x61]) [] 1700000000123 (.start 0) with fault := fun _ => stuck }
    let queue : Queue :=
      { Queue.ofDefaults [Path.slash] ⟨"abcdefgh"⟩ 37 with
        candidates := ⟨4, .lowestNames, [FileNames.committedPath [Path.slash] [0x61]], [[0x62]]⟩ }
    let left : Queue := { queue with size := 0, candidates := ⟨4, .lowestNames, [], [[0x62]]⟩ }
    ∃ after, queue.tryDequeue.run host = ((.ok (some (.ofBytes [0x41])), left), after) ∧
      AllOrNothing queue [] host after (queue.tryDequeue.attempts host)
        (.ok (some (.ofBytes [0x41])), left) ∧
      left.candidates.claimed = [[0x62]] ∧ after.tree.lookup [asCommitted [0x61]] = none ∧
      after.tree.lookup [asTemporary [0x61]] = some (.file smallRecord 0) := by
  intro stuck host queue left
  have offers : host.Offers [] :=
    ⟨wellFormed_recordAlone (by decide), by decide +kernel, by decide +kernel⟩
  have serves : host.Serves [] queue.directory := offers.serves (by decide +kernel)
  have near : queue.candidates.Near queue.directory := by
    intro path mem
    exact ⟨[0x61], by decide, by decide, List.mem_singleton.mp mem⟩
  have plain : ∀ base, host.tree.IsPlain [] (asCommitted base) :=
    fun base => isPlain_recordAlone [0x61] _
  have ran : queue.tryDequeue.run host
      = ((.ok (some (.ofBytes [0x41])), left), (queue.tryDequeue.run host).2) :=
    Program.run_eq (by decide +kernel)
  obtain ⟨whole, claimed, -⟩ := all_or_nothing serves near ran
  exact ⟨_, ran, whole fun base _ => plain base, claimed, by decide +kernel, by decide +kernel⟩

/-- A queue is opened through a link that bears the temporary name of the only record. Taking the
record puts its file in the place of the link, so that the file cannot be read: the record is
gone and counted off, no list, question or rename has failed, and what is answered is not what
the file says. -/
theorem unread_behind_link :
    let linked := (recordAlone [0x61]).insert [asTemporary [0x61]] (.link [Path.dot])
    let start := Host.quiet linked [] 1700000000123 (.start 0)
    let directory := Path.slash :: asTemporary [0x61]
    let queue := ofDefaults directory ⟨"abcdefgh"⟩ 37
    let ready := ((openWith .default directory ⟨"abcdefgh"⟩).run start).2
    let ended := queue.tryDequeue.run ready
    ((openWith .default directory ⟨"abcdefgh"⟩).run start).1 = .ok queue ∧
      Stored.listed ready.tree [] FileNames.committed = [asCommitted [0x61]] ∧
      ready.tree.lookup [asCommitted [0x61]] = some (.file smallRecord 0) ∧
      ended.2.tree.lookup [asCommitted [0x61]] = none ∧ ended.1.2.size = 0 ∧
      ended.1.1 = .error (.read (FileNames.temporaryPath directory [0x61]) .notDirectory) ∧
      ended.1.1 ≠ (Stored.decoded smallRecord).map some ∧
      ∀ attempt ∈ queue.tryDequeue.attempts ready, attempt.failure ≠ none →
        attempt.op = .read (FileNames.temporaryPath directory [0x61]) ∨
          attempt.op = .remove (FileNames.temporaryPath directory [0x61]) := by
  intro linked start directory queue ready ended
  refine ⟨by decide +kernel, by decide +kernel, by decide +kernel, by decide +kernel,
    by decide +kernel, by decide +kernel, by decide +kernel, by decide +kernel⟩

end Queue
end DiskQueue
