/-
Module: DiskQueue.Proofs.Turns
Purpose: Draining turn by turn: what each turn goes for, what it is answered, what it leaves
  behind, and what the report says about all of them.
Trusted boundary: none
Main exports:
  Command.Turn, Command.turns, Command.run_drainFrom, Command.run_runDrain, Command.Scene,
  Command.Attempted, Command.Trace, Command.Scene.trace
-/
import DiskQueue.Proofs.Draining
import DiskQueue.Proofs.OutputDirectory

namespace DiskQueue

open FileTree (Fits Holds Took Wrote Follows Grows)
open FileNames (asCommitted asTemporary)

/-!
Draining keeps two counts and a list. What they are is told by the turns that it takes: a turn
goes for a record, gets an answer, and writes the payload if there is one and a directory for it.
The first turn that finds nothing is the last one.

A run of turns is also a chain of changes to the files. A turn changes nothing, or one record
loses its name; then nothing changes, or the file of its payload does. `Trace` is that chain, and
what a whole run does is proved by induction on it.
-/

/-! ### Attempts that only the files can disturb -/

/-- From now on no operation fails but for the tree, except that files may not be removable and
payloads not writable. -/
def Host.TakesCalmly (host : Host) : Prop :=
  ∀ number op, host.calls ≤ number → (∀ path, op ≠ .remove path) →
    (∀ path, op ≠ .createEmpty path) → (∀ path content, op ≠ .append path content) →
    host.fault number op = none

theorem Host.TakesCalmly.later {host after : Host} (calm : host.TakesCalmly)
    (later : host.Later after) : after.TakesCalmly := by
  intro number op since
  rw [later.fault]
  exact calm number op (Nat.le_trans later.calls since)

/-- The path of the folder does not lead through temporary names as long as no directory and no
link is lost. -/
theorem Host.ReachesAside.keep {folder : Key} {directory : Path} {host after : Host}
    (h : host.ReachesAside folder directory) (later : host.Later after)
    (keeps : ∀ tree, Holds host.tree tree → Holds after.tree tree) :
    after.ReachesAside folder directory := by
  obtain ⟨tree, holds, without, leads⟩ := h
  refine ⟨tree, keeps tree holds, without, ?_⟩
  rwa [later.directory]

namespace Queue

variable {queue : Queue} {host after : Host} {folder : Key}

/-- The record that an attempt to take one goes for. -/
def sought? (queue : Queue) (host : Host) : Option Name :=
  match ((queue.candidates.take queue.directory).run host).1.1 with
  | .ok (some claim) => some claim.base
  | _ => none

/-- Nothing but the files of the folder can keep an attempt from taking a record and reading
it. -/
structure Undisturbed (folder : Key) (queue : Queue) (host : Host) : Prop where
  calm : host.TakesCalmly
  aside : host.ReachesAside folder queue.directory
  accepted : FileTree.refusal? queue.directory = none

/-- A call that makes no file and writes to none. -/
def WritesNothing (c : Call) : Prop :=
  (∀ path, c ≠ .file (.createEmpty path)) ∧ ∀ path content, c ≠ .file (.append path content)

theorem writesNothing_of_looks {c : Call} (looking : Program.looks c = true) : WritesNothing c := by
  constructor
  · rintro path rfl
    cases looking
  · rintro path content rfl
    cases looking

theorem run_cleared_of_writesNothing {α : Type} {p : Program α} (only : p.OnlyCalls WritesNothing)
    (calm : host.TakesCalmly) : p.run host.cleared = ((p.run host).1, (p.run host).2.cleared) := by
  apply only.run_cleared
  intro number op since may notRemove
  refine calm number op since notRemove ?_ ?_
  · rintro path rfl
    exact may.1 path rfl
  · rintro path content rfl
    exact may.2 path content rfl

/-- Faults that strike payloads make no difference to an attempt. -/
theorem run_tryDequeue_cleared (calm : host.TakesCalmly) (queue : Queue) :
    queue.tryDequeue.run host.cleared
      = ((queue.tryDequeue.run host).1, (queue.tryDequeue.run host).2.cleared) := by
  refine run_cleared_of_writesNothing (onlyCalls_tryDequeue ?_ ?_ ?_ queue) calm
  · exact fun _ => writesNothing_of_looks
  · exact fun _ => ⟨by simp, by simp⟩
  · exact fun _ _ => ⟨by simp, by simp⟩

theorem sought?_cleared (calm : host.TakesCalmly) (queue : Queue) :
    queue.sought? host.cleared = queue.sought? host := by
  have only := (readsOnly_take queue.candidates queue.directory).onlyCalls
    fun _ => writesNothing_of_looks
  rw [sought?, run_cleared_of_writesNothing only calm]
  rfl

end Queue

namespace Command

variable {output : Option Path} {attempt : Nat} {queue : Queue} {host after : Host}

/-! ### Turns -/

/-- A turn of draining: the record that it goes for, what is answered, and what became of the
payload if it was to be written. -/
structure Turn where
  sought : Option Name
  answer : Except QueueError (Option Transmission)
  written : Option (Except IoError Unit)

/-- What is done with an answer. -/
def deliver (output : Option Path) (attempt : Nat) :
    Except QueueError (Option Transmission) → Program (Option (Except IoError Unit))
  | .ok none => pure none
  | .error _ => do
    Program.log .warn "record not recovered"
    pure none
  | .ok (some transmission) =>
    match output with
    | none => pure none
    | some path => do
      match ← Program.writeFile (payloadPath path attempt) transmission.content with
      | .ok () => pure (some (.ok ()))
      | .error e => do
        Program.log .warn "unable to write drained payload"
        pure (some (.error e))

/-- The turns from a given attempt on, at most so many, and the queue and the host afterwards. -/
def turns (output : Option Path) : Nat → Nat → Queue → Host → List Turn × Queue × Host
  | _, 0, queue, host => ([], queue, host)
  | attempt, more + 1, queue, host =>
    let taken := queue.tryDequeue.run host
    let delivered := (deliver output attempt taken.1.1).run taken.2
    let turn : Turn := ⟨queue.sought? host, taken.1.1, delivered.1⟩
    match taken.1.1 with
    | .ok none => ([turn], taken.1.2, delivered.2)
    | _ =>
      let rest := turns output (attempt + 1) more taken.1.2 delivered.2
      (turn :: rest.1, rest.2)

/-- There are no more turns than are allowed. -/
theorem length_turns (output : Option Path) (attempt more : Nat) (queue : Queue) (host : Host) :
    (turns output attempt more queue host).1.length ≤ more := by
  induction more generalizing attempt queue host with
  | zero => exact Nat.le_refl _
  | succ more ih =>
    rw [turns]
    dsimp only
    split
    · exact Nat.succ_le_succ (Nat.zero_le _)
    · exact Nat.succ_le_succ (ih _ _ _)

/-- The first turn of a queue without a batch is that of a queue with the new one. -/
theorem turns_of_refill {refilled : Candidates} (empty : queue.candidates.batch = [])
    (refill : (queue.candidates.refill queue.directory).run host = (.ok refilled, after))
    (filled : refilled.batch ≠ []) :
    turns output attempt (more + 1) queue host
      = turns output attempt (more + 1) { queue with candidates := refilled } after := by
  have take : (queue.candidates.take queue.directory).run host
      = (refilled.take queue.directory).run after := by
    unfold Candidates.take
    rw [if_pos empty, if_neg filled, Program.run_andThen, refill]
  rw [turns, turns, Queue.sought?, Queue.sought?, Queue.tryDequeue, Queue.tryDequeue,
    Program.run_andThen, Program.run_andThen, take]

/-! ### What is reported about turns -/

/-- The file that a payload has been written to. -/
def writtenTo? (output : Option Path) (attempt : Nat) : Option (Except IoError Unit) → Option Path
  | some (.ok ()) => output.map fun path => payloadPath path attempt
  | _ => none

/-- What is listed about an answer. -/
def listed? (answer : Except QueueError (Option Transmission)) (writtenTo : Option Path) :
    Option Drained :=
  match answer with
  | .ok (some transmission) =>
    some ⟨transmission.length, transmission.contentType, transmission.contentEncoding, writtenTo⟩
  | _ => none

/-- What is listed about a turn. -/
def Turn.listed? (output : Option Path) (attempt : Nat) (turn : Turn) : Option Drained :=
  Command.listed? turn.answer (writtenTo? output attempt turn.written)

/-- Whether a turn counts as a failure. -/
def Turn.failed (turn : Turn) : Bool :=
  match turn.answer, turn.written with
  | .error _, _ => true
  | _, some (.error _) => true
  | _, _ => false

/-- What is listed about turns from a given attempt on. -/
def entries (output : Option Path) (attempt : Nat) (run : List Turn) : List Drained :=
  (run.zipIdx attempt).filterMap fun numbered => numbered.1.listed? output numbered.2

/-- The number of turns that count as failures. -/
def failures (run : List Turn) : Nat := run.countP Turn.failed

theorem entries_cons (turn : Turn) (rest : List Turn) : entries output attempt (turn :: rest)
    = (turn.listed? output attempt).toList ++ entries output (attempt + 1) rest := by
  unfold entries
  rw [List.zipIdx_cons, List.filterMap_cons]
  cases turn.listed? output attempt <;> rfl

theorem countP_turn_cons (p : Turn → Bool) (turn : Turn) (rest : List Turn) :
    (turn :: rest).countP p = (p turn).toNat + rest.countP p := by
  rw [List.countP_cons]
  cases p turn <;> simp [Nat.add_comm]

theorem failures_cons (turn : Turn) (rest : List Turn) :
    failures (turn :: rest) = turn.failed.toNat + failures rest :=
  countP_turn_cons Turn.failed turn rest

/-- Writing a payload ends as delivering it does. -/
theorem run_writePayload (output : Option Path) (attempt : Nat) (transmission : Transmission)
    (sought : Option Name) (host : Host) :
    let delivered := (deliver output attempt (.ok (some transmission))).run host
    let turn : Turn := ⟨sought, .ok (some transmission), delivered.1⟩
    (writePayload output attempt transmission.content).run host
      = ((writtenTo? output attempt delivered.1, turn.failed.toNat), delivered.2) := by
  cases output with
  | none => rfl
  | some path =>
    simp only [writePayload, deliver, Program.run_andThen]
    generalize (Program.writeFile (payloadPath path attempt) transmission.content).run host = wrote
    obtain ⟨result, after⟩ := wrote
    cases result <;> rfl

/-- Draining lists and counts its turns. -/
theorem run_drainFrom (output : Option Path) (attempt : Nat) (tally : Tally) (more : Nat)
    (queue : Queue) (host : Host) :
    let run := turns output attempt more queue host
    (drainFrom output attempt tally more queue).run host
      = ((⟨(entries output attempt run.1).reverse ++ tally.records,
          tally.failed + failures run.1⟩, run.2.1), run.2.2) := by
  induction more generalizing attempt tally queue host with
  | zero => rfl
  | succ more ih =>
    rw [drainFrom, turns, Program.run_andThen]
    generalize queue.sought? host = sought
    generalize queue.tryDequeue.run host = taking
    obtain ⟨⟨taken, queue⟩, mid⟩ := taking
    cases taken with
    | error e =>
      have told : (deliver output attempt (.error e)).run mid
          = (none, ((Program.log .warn "record not recovered").run mid).2) := rfl
      dsimp only
      rw [entries_cons, failures_cons, Program.run_andThen, ih, told]
      simp [Turn.listed?, listed?, Turn.failed, Nat.add_assoc]
    | ok found =>
      cases found with
      | none => rfl
      | some transmission =>
        have wrote := run_writePayload output attempt transmission sought mid
        dsimp only at wrote ⊢
        rw [entries_cons, failures_cons, Program.run_andThen, wrote, ih]
        simp [Turn.listed?, listed?, Nat.add_assoc]

/-- The report of a run of turns. -/
def drainReport (time : Int) (records : List Drained) (failed : Nat) (tracked : UInt64) : Outcome :=
  let document := sortedObject
    [("schema_version", number 1), ("generated_at", .string (Timestamp.format time)),
     ("command", .string "drain"), ("drained", number records.length), ("failed", number failed),
     ("records", .array (records.map Drained.toJson)), ("tracked_bytes", number tracked.toNat)]
  ⟨(drainExit ⟨records, failed⟩).number, .document document, .nothing⟩

theorem run_drainAll (queue : Queue) (output : Option Path) (limit : Nat) (host : Host) :
    let run := turns output 0 limit queue host
    ∃ time, (drainAll queue output limit).run host
      = (drainReport time (entries output 0 run.1) (failures run.1) run.2.1.size,
        run.2.2.counted) := by
  intro run
  refine ⟨run.2.2.clock run.2.2.calls, ?_⟩
  rw [drainAll, Program.run_andThen, run_drainFrom]
  simp only [List.append_nil, Nat.zero_add, List.length_reverse, List.reverse_reverse]
  have exit : drainExit ⟨(entries output 0 run.1).reverse, failures run.1⟩
      = drainExit ⟨entries output 0 run.1, failures run.1⟩ := by
    simp [drainExit]
  rw [exit]
  rfl

/-! ### Preparing the output directory -/

/-- The output directory, if there is one, is there or has been made. -/
def Prepared (output : Option Path) (ready made : Host) : Prop :=
  match output with
  | none => made = ready
  | some path => (Program.ensureDirectories path).run ready = (.ok (), made)

section Preparing

variable {ready made : Host} {folder : Key}

theorem run_runDrain (prepared : Prepared output ready made) (queue : Queue) (limit : Nat) :
    (runDrain queue output limit).run ready = (drainAll queue output limit).run made := by
  cases output with
  | none => rw [show made = ready from prepared, runDrain]
  | some path =>
    rw [runDrain, Program.run_andThen,
      show (Program.ensureDirectories path).run ready = _ from prepared]

/-- Without its output directory draining ends before the first turn. -/
theorem run_runDrain_of_unmade {path : Path} {e : IoError}
    (unmade : (Program.ensureDirectories path).run ready = (.error e, made)) (queue : Queue)
    (limit : Nat) :
    let ran := (runDrain queue (some path) limit).run ready
    ran.1.code = ExitCode.badConfiguration.number ∧ ran.1.output matches .nothing ∧
      ran.2.tree = made.tree := by
  rw [runDrain, Program.run_andThen, unmade]
  exact ⟨rfl, rfl, rfl⟩

theorem Prepared.later (prepared : Prepared output ready made) : ready.Later made := by
  cases output with
  | none => exact (show made = ready from prepared) ▸ Host.Later.refl _
  | some path =>
    have later := Program.later_run (Program.ensureDirectories path) ready
    rwa [show (Program.ensureDirectories path).run ready = _ from prepared] at later

theorem Prepared.grows (prepared : Prepared output ready made) (offers : ready.Offers folder) :
    Grows ready.tree made.tree := by
  cases output with
  | none => exact (show made = ready from prepared) ▸ Grows.refl _
  | some path =>
    have grows := Program.grows_ensureDirectories offers.wellFormed offers.current path
    rwa [show (Program.ensureDirectories path).run ready = _ from prepared] at grows

end Preparing

/-! ### The scene of a turn -/

variable {size : UInt64} {order : RefillOrder} {folder target : Key}

/-- A queue that is alone in its folder, and a place for payloads. -/
structure Scene (size : UInt64) (order : RefillOrder) (folder target : Key) (output : Option Path)
    (queue : Queue) (host : Host) : Prop where
  serves : host.Serves folder queue.directory
  orderly : queue.candidates.Orderly size order folder queue.directory host.tree
  receives : ∀ path, output = some path → host.Receives target path

/-! ### What a turn goes for -/

/-- What an attempt to take a record leaves behind, told with the record that it goes for. If
nothing disturbs it, it fails only for a record whose path is not taken by the system, or whose
temporary name belongs to a directory. -/
inductive Attempted (folder : Key) (directory : Path) (undisturbed : Prop)
    (before after : FileTree) : Option Name → Except QueueError (Option Transmission) → Prop
  | unlisted (e : QueueError) (same : after = before) (why : ¬ undisturbed) :
      Attempted folder directory undisturbed before after none (.error e)
  | nothing (same : after = before) :
      Attempted folder directory undisturbed before after none (.ok none)
  | failed (base : Name) (e : QueueError) (same : after = before)
      (named : base ≠ [] ∧ Path.slash ∉ base)
      (there : ∃ content modified,
        before.lookup (folder ++ [asCommitted base]) = some (.file content modified))
      (why : undisturbed → Fits directory (asCommitted base) →
        before.lookup (folder ++ [asTemporary base]) = some .directory) :
      Attempted folder directory undisturbed before after (some base) (.error e)
  | took (base : Name) (content : Bytes) (result : Except QueueError (Option Transmission))
      (named : base ≠ [] ∧ Path.slash ∉ base) (took : Took folder base content before after)
      (answer : result = (Stored.decoded content).map some ∨
        (∃ e, result = .error e) ∧ ¬ undisturbed) :
      Attempted folder directory undisturbed before after (some base) result

theorem Attempted.mono {directory : Path} {more less : Prop} {before after : FileTree}
    {sought : Option Name} {answer : Except QueueError (Option Transmission)}
    (h : Attempted folder directory less before after sought answer) (imp : more → less) :
    Attempted folder directory more before after sought answer := by
  cases h with
  | unlisted e same why => exact .unlisted e same fun all => why (imp all)
  | nothing same => exact .nothing same
  | failed base e same named there why => exact .failed base e same named there (why ∘ imp)
  | took base content _ named took answer =>
    refine .took base content _ named took ?_
    rcases answer with read | ⟨failed, why⟩
    · exact .inl read
    · exact .inr ⟨failed, fun all => why (imp all)⟩

/-- What an attempt comes to on a host without faults that matter. -/
theorem attempted_of_steady (serves : host.Serves folder queue.directory)
    (orderly : queue.candidates.Orderly size order folder queue.directory host.tree) :
    Attempted folder queue.directory (host.Steady ∧ host.ReachesAside folder queue.directory ∧
        FileTree.refusal? queue.directory = none)
      host.tree (queue.tryDequeue.run host).2.tree (queue.sought? host)
      (queue.tryDequeue.run host).1.1 := by
  have looked : Program.Meets (fun _ => True) _ _ host :=
    Candidates.meets_take queue.candidates serves trivial
  have since := Program.later_run (queue.candidates.take queue.directory) host
  obtain ⟨same, outcome⟩ := looked.run
  obtain ⟨names, batch, -, listed⟩ := orderly.refreshed serves.wellFormed
  rw [batch] at outcome
  unfold Queue.sought? Queue.tryDequeue
  rw [Program.run_andThen]
  generalize (queue.candidates.take queue.directory).run host = taking at same outcome since ⊢
  obtain ⟨taken, mid⟩ := taking
  rcases outcome with ⟨e, rfl, -, why⟩ | rfl
  · refine .unlisted _ same ?_
    rintro ⟨steady, aside, accepted⟩
    exact why steady accepted aside.reaches
  cases names with
  | nil => exact .nothing same
  | cons name rest =>
    obtain ⟨base, nonempty, slash, rfl, content, modified, there⟩ :=
      Stored.exists_base serves.wellFormed (listed name List.mem_cons_self)
    rw [Candidates.next_holding nonempty slash]
    by_cases text : Utf8.isText base
    · rw [if_pos text]
      have plain : mid.tree.IsPlain folder (asCommitted base) := by
        rw [same]
        exact FileTree.isPlain_of_file there
      have consumed := (Queue.meets_consume
        { queue with candidates := { Candidates.holding size order queue.directory rest with
            claimed := [base] } }
        (serves.unchanged since same) slash plain).run
      dsimp only
      rw [Program.run_andThen]
      generalize Program.run _ mid = ended at consumed ⊢
      obtain ⟨⟨result, left⟩, after⟩ := ended
      have consumed := consumed.of_same since same
      cases consumed with
      | failed e unchanged why =>
        refine .failed base e unchanged ⟨nonempty, slash⟩ ⟨content, modified, there⟩ ?_
        rintro ⟨steady, aside, -⟩ fits
        by_contra free
        cases there.symm.trans
          (why steady aside.reaches fits (FileNames.fits_asTemporary slash fits) free)
      | took content result took answer fits =>
        refine .took base content _ ⟨nonempty, slash⟩ took ?_
        rcases answer with read | ⟨failed, why⟩
        · exact .inl read
        · refine .inr ⟨failed, ?_⟩
          rintro ⟨steady, aside, -⟩
          exact why ⟨steady, aside.keptInReach there⟩
    · rw [if_neg text]
      exact .nothing same

theorem Scene.attempted (scene : Scene size order folder target output queue host) :
    Attempted folder queue.directory (queue.Undisturbed folder host) host.tree
      (queue.tryDequeue.run host).2.tree (queue.sought? host) (queue.tryDequeue.run host).1.1 := by
  by_cases undisturbed : queue.Undisturbed folder host
  · have cleared := attempted_of_steady (Host.serves_cleared.mpr scene.serves) scene.orderly
    rw [Queue.run_tryDequeue_cleared undisturbed.calm,
      Queue.sought?_cleared undisturbed.calm] at cleared
    exact cleared.mono fun _ =>
      ⟨host.steady_cleared, undisturbed.aside, undisturbed.accepted⟩
  · exact (attempted_of_steady scene.serves scene.orderly).mono fun all => absurd all undisturbed

/-! ### What a turn writes -/

/-- What is left behind where an answer is delivered. A payload is written if there is a directory
for it. -/
inductive Delivered (output : Option Path) (target : Key) (attempt : Nat)
    (before after : FileTree) : Except QueueError (Option Transmission) →
      Option (Except IoError Unit) → Prop
  | nothing (answer : Except QueueError (Option Transmission)) (same : after = before)
      (unasked : ∀ transmission, answer = .ok (some transmission) → output = none) :
      Delivered output target attempt before after answer none
  | payload (transmission : Transmission) (result : Except IoError Unit)
      (asked : output ≠ none)
      (wrote : Wrote target (payloadName attempt) transmission.content before after result) :
      Delivered output target attempt before after (.ok (some transmission)) (some result)

theorem Scene.delivered (scene : Scene size order folder target output queue host) (attempt : Nat)
    (answer : Except QueueError (Option Transmission)) :
    Delivered output target attempt host.tree ((deliver output attempt answer).run host).2.tree
      answer ((deliver output attempt answer).run host).1 := by
  cases answer with
  | error e => exact .nothing _ rfl (by simp)
  | ok found =>
    cases found with
    | none => exact .nothing _ rfl (by simp)
    | some transmission =>
      cases output with
      | none => exact .nothing _ rfl fun _ _ => rfl
      | some path =>
        have wrote := wrote_writeFile (scene.receives path rfl) attempt transmission.content
        rw [deliver, Program.run_andThen]
        generalize (Program.writeFile (payloadPath path attempt) transmission.content).run host
          = writing at wrote ⊢
        obtain ⟨result, after⟩ := writing
        cases result with
        | error e => exact .payload transmission _ (by simp) wrote
        | ok done => exact .payload transmission _ (by simp) wrote

section Frame

variable {directory : Path} {undisturbed : Prop} {before after : FileTree} {sought : Option Name}
  {answer : Except QueueError (Option Transmission)} {written : Option (Except IoError Unit)}

theorem Delivered.lookup_other (h : Delivered output target attempt before after answer written)
    {key : Key} (other : key ≠ target ++ [payloadName attempt]) :
    after.lookup key = before.lookup key := by
  cases h with
  | nothing _ same => rw [same]
  | payload transmission result asked wrote => exact wrote.lookup_other other

/-- Without an output directory nothing is written. -/
theorem Delivered.unasked (h : Delivered none target attempt before after answer written) :
    written = none := by
  cases h with
  | nothing => rfl
  | payload transmission result asked => exact absurd rfl asked

/-- Records and files that are being read are not touched where payloads are written. -/
theorem Delivered.lookup_extension
    (h : Delivered output target attempt before after answer written) (base : Name)
    {extension : Name} (known : extension ∈ FileNames.extensions) :
    after.lookup (folder ++ [FileNames.withExtension base extension])
      = before.lookup (folder ++ [FileNames.withExtension base extension]) := by
  apply h.lookup_other
  intro same
  have names := (List.append_inj' same rfl).2
  exact payloadName_ne_withExtension attempt base known (List.cons.inj names).1.symm

theorem Attempted.lookup_other
    (h : Attempted folder directory undisturbed before after sought answer) {key : Key}
    (other : ∀ base, sought = some base →
      key ≠ folder ++ [asCommitted base] ∧ key ≠ folder ++ [asTemporary base]) :
    after.lookup key = before.lookup key := by
  cases h with
  | unlisted e same => rw [same]
  | nothing same => rw [same]
  | failed base e same => rw [same]
  | took base content _ named took =>
    exact took.lookup_key (other base rfl).1 (other base rfl).2

/-- A record stays as it is, or it has been gone for and is removed. -/
theorem Attempted.record (h : Attempted folder directory undisturbed before after sought answer)
    (base : Name) :
    after.lookup (folder ++ [asCommitted base]) = before.lookup (folder ++ [asCommitted base]) ∨
      sought = some base ∧ ∃ content, (∃ modified,
          before.lookup (folder ++ [asCommitted base]) = some (.file content modified)) ∧
        after.lookup (folder ++ [asCommitted base]) = none ∧
        (answer = (Stored.decoded content).map some ∨ ∃ e, answer = .error e) := by
  cases h with
  | unlisted e same => exact .inl (by rw [same])
  | nothing same => exact .inl (by rw [same])
  | failed own e same => exact .inl (by rw [same])
  | took own content _ named took answered =>
    by_cases same : base = own
    · subst same
      refine .inr ⟨rfl, content, took.there, took.lookup_committed, ?_⟩
      exact answered.imp_right And.left
    · exact .inl (took.lookup_committed_other same)

/-- The files of payloads are not touched where records are taken. -/
theorem Attempted.lookup_payload
    (h : Attempted folder directory undisturbed before after sought answer) (attempt : Nat) :
    after.lookup (target ++ [payloadName attempt])
      = before.lookup (target ++ [payloadName attempt]) := by
  have apart : ∀ base, ∀ extension ∈ FileNames.extensions,
      target ++ [payloadName attempt] ≠ folder ++ [FileNames.withExtension base extension] := by
    intro base extension known same
    have names := (List.append_inj' same rfl).2
    exact payloadName_ne_withExtension attempt base known (List.cons.inj names).1
  apply h.lookup_other
  intro base _
  exact ⟨apart base _ FileNames.committed_mem_extensions,
    apart base _ FileNames.temporary_mem_extensions⟩

end Frame

/-! ### From one turn to the next -/

theorem Scene.took (scene : Scene size order folder target output queue host) :
    let taken := queue.tryDequeue.run host
    Scene size order folder target output taken.1.2 taken.2 ∧
      (queue.Undisturbed folder host → taken.1.2.Undisturbed folder taken.2) ∧
      taken.1.2.directory = queue.directory := by
  have wf := scene.serves.wellFormed
  have sound := scene.orderly.sound wf
  have outcome := (Queue.meets_tryDequeue scene.serves sound).run
  have since := Program.later_run queue.tryDequeue host
  have attempted := scene.attempted
  dsimp only
  generalize queue.sought? host = sought at attempted
  generalize queue.tryDequeue.run host = taken at outcome since attempted ⊢
  obtain ⟨⟨result, later⟩, after⟩ := taken
  obtain ⟨-, directory, -, -⟩ := outcome.queue_eq scene.serves sound
  have follows := outcome.follows scene.serves.isFolder
  have orderly := outcome.orderly scene.serves since scene.orderly
  refine ⟨⟨?_, ?_, ?_⟩, ?_, directory⟩
  · rw [directory]
    exact scene.serves.follow since follows
  · rwa [directory]
  · exact fun path given => (scene.receives path given).follow since follows
  · intro undisturbed
    refine ⟨undisturbed.calm.later since, ?_, directory ▸ undisturbed.accepted⟩
    rw [directory]
    have unchanged : after.tree = host.tree → after.ReachesAside folder queue.directory :=
      fun same => undisturbed.aside.keep since fun tree holds => same ▸ holds
    cases attempted with
    | unlisted e same => exact unchanged same
    | nothing same => exact unchanged same
    | failed base e same => exact unchanged same
    | took base content _ named took => exact undisturbed.aside.took since took

theorem Scene.deliver (scene : Scene size order folder target output queue host) (attempt : Nat)
    (answer : Except QueueError (Option Transmission)) :
    let delivered := (deliver output attempt answer).run host
    Scene size order folder target output queue delivered.2 ∧
      (queue.Undisturbed folder host → queue.Undisturbed folder delivered.2) := by
  have happened := scene.delivered attempt answer
  have since := Program.later_run (Command.deliver output attempt answer) host
  dsimp only
  generalize (Command.deliver output attempt answer).run host = delivered at happened since ⊢
  obtain ⟨written, after⟩ := delivered
  have kept : ∀ base, after.tree.lookup (folder ++ [asCommitted base])
      = host.tree.lookup (folder ++ [asCommitted base]) :=
    fun base => happened.lookup_extension base FileNames.committed_mem_extensions
  have orderly : queue.candidates.Orderly size order folder queue.directory after.tree := by
    apply scene.orderly.keep
    intro name mem
    apply FileTree.mem_listed_of_lookup scene.serves.wellFormed mem
    rintro base rfl
    exact kept base
  -- Either nothing has changed, or a folder that follows the one before.
  obtain ⟨changed, follows, holds⟩ : ∃ changed, Follows changed host.tree after.tree ∧
      ∀ tree, Holds host.tree tree → Holds after.tree tree := by
    cases happened with
    | nothing _ same => exact ⟨folder, same ▸ Follows.refl _ _, fun tree holds => same ▸ holds⟩
    | payload transmission result asked wrote =>
      obtain ⟨path, given⟩ := Option.ne_none_iff_exists'.mp asked
      have isFolder := (scene.receives path given).serves.isFolder
      exact ⟨target, wrote.follows isFolder (isProper_payloadName attempt),
        fun tree => wrote.holds⟩
  refine ⟨⟨scene.serves.follow since follows, orderly, ?_⟩, ?_⟩
  · exact fun path given => (scene.receives path given).follow since follows
  · exact fun undisturbed => ⟨undisturbed.calm.later since, undisturbed.aside.keep since holds,
      undisturbed.accepted⟩

/-- A run of turns as a chain of changes to the files. After a turn that finds nothing there is
none. -/
inductive Trace (folder : Key) (directory : Path) (undisturbed : Prop) (output : Option Path)
    (target : Key) : Nat → FileTree → List Turn → FileTree → Prop
  | done (attempt : Nat) (tree : FileTree) :
      Trace folder directory undisturbed output target attempt tree [] tree
  | turn {attempt : Nat} {before mid after last : FileTree} {turn : Turn} {rest : List Turn}
      (attempted : Attempted folder directory undisturbed before mid turn.sought turn.answer)
      (delivered : Delivered output target attempt mid after turn.answer turn.written)
      (ends : turn.answer = .ok none → rest = [])
      (others : Trace folder directory undisturbed output target (attempt + 1) after rest last) :
      Trace folder directory undisturbed output target attempt before (turn :: rest) last

theorem Trace.mono {directory : Path} {more less : Prop} {before last : FileTree}
    {run : List Turn} (h : Trace folder directory less output target attempt before run last)
    (imp : more → less) : Trace folder directory more output target attempt before run last := by
  induction h with
  | done attempt tree => exact .done attempt tree
  | turn attempted delivered ends _ ih => exact .turn (attempted.mono imp) delivered ends ih

/-- Draining is such a chain. -/
theorem Scene.trace (scene : Scene size order folder target output queue host)
    (attempt more : Nat) :
    let run := turns output attempt more queue host
    Trace folder queue.directory (queue.Undisturbed folder host) output target attempt host.tree
      run.1 run.2.2.tree := by
  induction more generalizing attempt queue host with
  | zero => exact .done _ _
  | succ more ih =>
    obtain ⟨taken, undisturbed, directory⟩ := scene.took
    have attempted := scene.attempted
    rw [turns]
    generalize queue.sought? host = sought at attempted ⊢
    generalize queue.tryDequeue.run host = taking at taken undisturbed directory attempted ⊢
    obtain ⟨⟨answer, later⟩, mid⟩ := taking
    dsimp only at taken undisturbed directory attempted ⊢
    have delivered := taken.delivered attempt answer
    obtain ⟨next, undisturbed'⟩ := taken.deliver attempt answer
    have rest := (ih next (attempt + 1)).mono fun all => undisturbed' (undisturbed all)
    rw [directory] at rest
    split
    · exact .turn attempted delivered (fun _ => rfl) (.done _ _)
    · rename_i more
      exact .turn attempted delivered (fun nothing => absurd nothing more) rest

section Opened

variable {options : Queue.Options} {fallback : Path} {token : ProcessToken}
  {start ready made : Host}

/-- A new queue is ready for its first turn. -/
theorem scene_of_opened
    (opened : (Queue.openWith options fallback token).run start = (.ok queue, ready))
    (offers : ready.Offers folder) (reaches : ready.Reaches folder queue.directory)
    (prepared : Prepared output ready made)
    (receives : ∀ path, output = some path → made.Receives target path) :
    Scene options.cacheSize options.refillOrder folder target output queue made := by
  have later := prepared.later
  have grows := prepared.grows offers
  obtain ⟨-, -, candidates, -⟩ := Queue.of_opened opened
  refine ⟨(offers.grow grows later).serves (reaches.grow grows later), ?_, receives⟩
  rw [candidates]
  exact Candidates.orderly_start _ _ _ _ _

theorem undisturbed_of_opened
    (opened : (Queue.openWith options fallback token).run start = (.ok queue, ready))
    (offers : ready.Offers folder) (prepared : Prepared output ready made)
    (calm : ready.TakesCalmly) (aside : ready.ReachesAside folder queue.directory) :
    queue.Undisturbed folder made where
  calm := calm.later prepared.later
  aside := aside.keep prepared.later fun _ => (prepared.grows offers).holds
  accepted := (Queue.of_opened opened).2.2.2

end Opened

end Command
end DiskQueue
