/-
Module: DiskQueue.Proofs.DrainAccount
Purpose: Which records draining consumes, and what its report says about them.
Trusted boundary: none
Main exports:
  Command.Due, Command.Due.take, Command.Due.consumed, Command.DrainAccount,
  Command.drain_accounted
-/
import DiskQueue.Proofs.DrainAttempts
import DiskQueue.Proofs.Payloads

namespace DiskQueue

open FileTree (Fits)
open FileNames (asCommitted asTemporary)

/-!
Three things can come of a turn: a record is given, or it cannot be decoded, or it is given and its
payload cannot be written. The first two are decided by the record alone, so the answers of a run
are known from the files that it starts with: they are those of the records that are due, in order,
as far as the limit goes. Only whether a payload is written depends on the directory for it.
-/

variable {folder target : Key} {size : UInt64} {order : RefillOrder} {output : Option Path}
  {host after : Host} {queue : Queue} {first others : List Name}

/-- What is read from a file is never nothing. -/
theorem Stored.decoded_ne_nothing (content : Bytes) : (decoded content).map some ≠ .ok none := by
  cases decoded content <;> simp [Except.map]

/-! ### Changes beside the records -/

/-- What is beside the records and the files that they are read from does not matter. -/
theorem Queue.Drainable.beside (h : Drainable size order folder queue host first others)
    (serves : after.Serves folder queue.directory) (steady : after.Steady)
    (aside : after.ReachesAside folder queue.directory)
    (same : ∀ base, ∀ extension ∈ FileNames.extensions,
      after.tree.lookup (folder ++ [FileNames.withExtension base extension])
        = host.tree.lookup (folder ++ [FileNames.withExtension base extension])) :
    Drainable size order folder queue after first others := by
  have wf := h.serves.wellFormed
  have listed : ∀ name, name ∈ Stored.listed after.tree folder FileNames.committed ↔
      name ∈ Stored.listed host.tree folder FileNames.committed := by
    intro name
    constructor
    · intro mem
      apply FileTree.mem_listed_of_lookup serves.wellFormed mem
      rintro base rfl
      exact (same base _ FileNames.committed_mem_extensions).symm
    · intro mem
      apply FileTree.mem_listed_of_lookup wf mem
      rintro base rfl
      exact same base _ FileNames.committed_mem_extensions
  exact { h with
    serves := serves
    steady := steady
    aside := aside
    listed := h.listed.trans ((List.perm_ext_iff_of_nodup (Stored.nodup_listed _ _ _)
      (Stored.nodup_listed _ _ _)).mpr fun name => (listed name).symm)
    takeable := by
      intro name mem
      have able := h.takeable name ((listed name).mp mem)
      refine ⟨able.text, ?_⟩
      rintro base rfl
      rw [same base _ FileNames.temporary_mem_extensions]
      exact able.free base rfl
    fits := fun name mem => h.fits name ((listed name).mp mem) }

/-- The entries of a directory are told by the list of its children. -/
theorem FileTree.lookup_child_congr {tree other : FileTree}
    (same : other.children folder = tree.children folder) (name : Name) :
    other.lookup (folder ++ [name]) = tree.lookup (folder ++ [name]) := by
  apply Option.ext
  intro node
  rw [← mem_children_iff, ← mem_children_iff, same]

namespace Command

variable {attempt : Nat} {names : List Name}

/-! ### What is due -/

/-- A queue that can get hold of every file of its folder, and a place for payloads. The names are
those of the files, in the order in which they are taken. -/
structure Due (size : UInt64) (order : RefillOrder) (folder target : Key) (output : Option Path)
    (queue : Queue) (host : Host) (names : List Name) : Prop where
  drainable : ∃ first others, queue.Drainable size order folder host.cleared first others ∧
    first ++ Candidates.arranged (max size.toNat 1) order others = names
  receives : ∀ path, output = some path → host.Receives target path
  calm : host.TakesCalmly

namespace Due

theorem perm (h : Due size order folder target output queue host names) :
    (Stored.listed host.tree folder FileNames.committed).Perm names := by
  obtain ⟨first, others, drainable, rfl⟩ := h.drainable
  exact drainable.perm_due

/-- Every file that is due is a record. -/
theorem exists_base (h : Due size order folder target output queue host names) {name : Name}
    (mem : name ∈ names) : ∃ base, name = asCommitted base := by
  obtain ⟨first, others, drainable, -⟩ := h.drainable
  obtain ⟨base, -, -, eq, -⟩ :=
    Stored.exists_base drainable.serves.wellFormed (h.perm.mem_iff.mpr mem)
  exact ⟨base, eq⟩

theorem scene (h : Due size order folder target output queue host names) :
    Scene size order folder target output queue host := by
  obtain ⟨first, others, drainable, -⟩ := h.drainable
  exact ⟨Host.serves_cleared.mp drainable.serves,
    ⟨first, drainable.candidates, drainable.firstAscend,
      fun name mem => drainable.listed.mem_iff.mp (List.mem_append_left others mem)⟩, h.receives⟩

/-- What is due next is taken, if there is anything, and the others stay as they are. -/
theorem take (h : Due size order folder target output queue host names) :
    let taken := queue.tryDequeue.run host
    names = [] ∧ taken.1.1 = .ok none ∧ taken.2.tree = host.tree ∨
      ∃ name rest, names = name :: rest ∧ taken.1.1 = Stored.given host.tree folder name ∧
        Due size order folder target output taken.1.2 taken.2 rest ∧
        ∀ other ∈ rest, taken.2.tree.lookup (folder ++ [other])
          = host.tree.lookup (folder ++ [other]) := by
  obtain ⟨first, others, drainable, due⟩ := h.drainable
  have distinct := h.perm.nodup_iff.mp (Stored.nodup_listed _ _ _)
  have records : ∀ name ∈ names, ∃ base, name = asCommitted base := fun _ => h.exists_base
  have attempted := h.scene.attempted
  have receives := h.scene.took.1.receives
  have since := Program.later_run queue.tryDequeue host
  have cleared := Queue.run_tryDequeue_cleared h.calm queue
  generalize queue.sought? host = sought at attempted
  generalize queue.tryDequeue.run host = ran at attempted receives since cleared ⊢
  obtain ⟨⟨answer, later⟩, mid⟩ := ran
  dsimp only at attempted receives since cleared ⊢
  rcases drainable.step cleared with ⟨nothing, rfl⟩ | ⟨name, batch, more, eq, given, left, same⟩
  · refine .inl ⟨due.symm.trans nothing, rfl, ?_⟩
    cases attempted with
    | nothing same => exact same
    | took base content _ named took answered =>
      rcases answered with read | ⟨⟨e, failed⟩, -⟩
      · exact absurd read.symm (Stored.decoded_ne_nothing content)
      · cases failed
  · cases due.symm.trans eq
    refine .inr ⟨name, _, rfl, given, ⟨⟨batch, more, left, rfl⟩, receives, h.calm.later since⟩, ?_⟩
    intro other mem
    obtain ⟨base, rfl⟩ := records other (List.mem_cons_of_mem _ mem)
    apply same _ ?_ ⟨base, rfl⟩
    rintro rfl
    exact (List.nodup_cons.mp distinct).1 mem

/-- Nothing that is due changes where a payload is written. -/
theorem deliver (h : Due size order folder target output queue host names) (attempt : Nat)
    (answer : Except QueueError (Option Transmission)) :
    let delivered := (Command.deliver output attempt answer).run host
    Due size order folder target output queue delivered.2 names ∧
      ∀ name ∈ names, delivered.2.tree.lookup (folder ++ [name])
        = host.tree.lookup (folder ++ [name]) := by
  obtain ⟨first, others, drainable, due⟩ := h.drainable
  have delivered := h.scene.delivered attempt answer
  have since := Program.later_run (Command.deliver output attempt answer) host
  obtain ⟨scene, undisturbed⟩ := h.scene.deliver attempt answer
  have aside := (undisturbed ⟨h.calm, drainable.aside, drainable.accepted⟩).aside
  refine ⟨⟨⟨first, others, ?_, due⟩, scene.receives, h.calm.later since⟩, ?_⟩
  · exact drainable.beside (Host.serves_cleared.mpr scene.serves) (Host.steady_cleared _) aside
      fun base _ => delivered.lookup_extension base
  · intro name mem
    obtain ⟨base, rfl⟩ := h.exists_base mem
    exact delivered.lookup_extension base FileNames.committed_mem_extensions

/-- The files that are due are consumed as far as the limit goes, each turn is answered what can be
read from the next one, and the files behind them stay as they are. -/
theorem consumed (h : Due size order folder target output queue host names) (attempt more : Nat) :
    let run := turns output attempt more queue host
    run.1.map Turn.answer = (names.take more).map (Stored.given host.tree folder)
        ++ (if names.length < more then [.ok none] else []) ∧
      (Stored.listed run.2.2.tree folder FileNames.committed).Perm (names.drop more) ∧
      ∀ name ∈ names.drop more,
        run.2.2.tree.lookup (folder ++ [name]) = host.tree.lookup (folder ++ [name]) := by
  induction more generalizing attempt queue host names with
  | zero => exact ⟨by simp [turns], h.perm, fun _ _ => rfl⟩
  | succ more ih =>
    have all := h.perm
    have taken := h.take
    rw [turns]
    generalize queue.sought? host = sought
    generalize queue.tryDequeue.run host = ran at taken ⊢
    obtain ⟨⟨answer, later⟩, mid⟩ := ran
    dsimp only at taken ⊢
    rcases taken with ⟨rfl, rfl, same⟩ | ⟨name, rest, rfl, given, due, same⟩
    · refine ⟨by simp, ?_, by simp⟩
      rw [List.drop_nil, ← List.perm_nil.mp all]
      exact .of_eq (congrArg (Stored.listed · folder FileNames.committed) same)
    · obtain ⟨next, beside⟩ := due.deliver attempt answer
      generalize (Command.deliver output attempt answer).run mid = delivered at next beside ⊢
      obtain ⟨written, after⟩ := delivered
      have kept : ∀ other ∈ rest,
          after.tree.lookup (folder ++ [other]) = host.tree.lookup (folder ++ [other]) :=
        fun other mem => (beside other mem).trans (same other mem)
      have others : (rest.take more).map (Stored.given after.tree folder)
          = (rest.take more).map (Stored.given host.tree folder) :=
        List.map_congr_left fun other mem =>
          Stored.given_congr (kept other (List.mem_of_mem_take mem))
      have found : answer ≠ .ok none := given ▸ Stored.decoded_ne_nothing _
      obtain ⟨answers, left, last⟩ := ih next (attempt + 1)
      split
      · exact absurd rfl found
      · refine ⟨?_, left, ?_⟩
        · rw [List.map_cons, answers, others, List.take_succ_cons, List.map_cons, ← given,
            List.length_cons]
          simp
        · intro other mem
          rw [List.drop_succ_cons] at mem
          exact (last other mem).trans (kept other (List.mem_of_mem_drop mem))

end Due

/-! ### What is reported -/

/-- The payload of a turn was to be written, and could not be. -/
def Turn.unwritten (turn : Turn) : Bool := turn.written matches some (.error _)

section Report

variable {run : List Turn} {given : Name → Except QueueError (Option Transmission)}
  {tail : List (Except QueueError (Option Transmission))}

/-- What is listed is told by the answers and by what has been written. -/
theorem entries_eq (written : Nat → Option (Except IoError Unit))
    (answers : run.map Turn.answer = names.map given ++ tail)
    (ends : ∀ answer ∈ tail, answer = .ok none)
    (wrote : ∀ index turn, run[index]? = some turn → written (attempt + index) = turn.written) :
    entries output attempt run = (names.zipIdx attempt).filterMap fun numbered =>
      listed? (given numbered.1) (writtenTo? output numbered.2 (written numbered.2)) := by
  induction names generalizing attempt run with
  | nil =>
    refine List.filterMap_eq_nil_iff.mpr ?_
    rintro ⟨turn, index⟩ mem
    have among : turn ∈ run :=
      List.mem_of_getElem? (List.mk_mem_zipIdx_iff_le_and_getElem?_sub.mp mem).2
    have nothing := ends _ (answers ▸ List.mem_map_of_mem among)
    rw [Turn.listed?, nothing]
    rfl
  | cons name names ih =>
    cases run with
    | nil => cases answers
    | cons turn rest =>
      rw [List.map_cons, List.map_cons, List.cons_append, List.cons.injEq] at answers
      have others := @ih (attempt + 1) rest answers.2 fun index turn found => by
        rw [Nat.add_assoc, Nat.add_comm 1 index]
        exact wrote (index + 1) turn found
      have first : listed? (given name) (writtenTo? output attempt (written attempt))
          = turn.listed? output attempt := by
        rw [← answers.1, show written attempt = turn.written from wrote 0 turn rfl]
        rfl
      rw [entries_cons, others, List.zipIdx_cons, List.filterMap_cons]
      dsimp only
      rw [first]
      cases turn.listed? output attempt <;> rfl

/-- As many records are listed as can be decoded. -/
theorem length_filterMap_listed (some : ∀ name ∈ names, given name ≠ .ok none)
    (writtenTo : Name × Nat → Option Path) :
    ((names.zipIdx attempt).filterMap fun numbered =>
      listed? (given numbered.1) (writtenTo numbered)).length
        = names.countP fun name => (given name).isOk := by
  induction names generalizing attempt with
  | nil => rfl
  | cons name names ih =>
    have rest := @ih (attempt + 1) fun other mem => some other (List.mem_cons_of_mem _ mem)
    have first := some name List.mem_cons_self
    rw [List.zipIdx_cons, List.filterMap_cons, List.countP_cons, ← rest]
    cases answered : given name with
    | error e => simp [listed?, Except.isOk, Except.toBool]
    | ok found =>
      cases found with
      | none => exact absurd answered first
      | some transmission => simp [listed?, Except.isOk, Except.toBool]

/-- A turn fails if its record cannot be decoded, or if its payload cannot be written. -/
theorem Trace.failures_eq {directory : Path} {undisturbed : Prop} {before last : FileTree}
    (h : Trace folder directory undisturbed output target attempt before run last) :
    failures run
      = run.countP (fun turn => !turn.answer.isOk) + run.countP Turn.unwritten := by
  induction h with
  | done attempt tree => rfl
  | @turn attempt before mid after last first rest attempted delivered ends others ih =>
    have once : first.failed.toNat = (!first.answer.isOk).toNat + first.unwritten.toNat := by
      obtain ⟨sought, answer, written⟩ := first
      cases delivered with
      | nothing _ same => cases answer <;> rfl
      | payload transmission result asked wrote => cases result <;> rfl
    rw [failures_cons, countP_turn_cons, countP_turn_cons, ih, once]
    omega

/-- Without an output directory nothing is written. -/
theorem Trace.unasked {directory : Path} {undisturbed : Prop} {before last : FileTree}
    (h : Trace folder directory undisturbed none target attempt before run last) {turn : Turn}
    (mem : turn ∈ run) : turn.written = none := by
  induction h with
  | done attempt tree => cases mem
  | turn attempted delivered ends _ ih =>
    rcases List.mem_cons.mp mem with rfl | mem
    · exact delivered.unasked
    · exact ih mem

/-- What cannot be decoded is counted by the answers. -/
theorem countP_answers (answers : run.map Turn.answer = names.map given ++ tail)
    (ends : ∀ answer ∈ tail, answer = .ok none) :
    run.countP (fun turn => !turn.answer.isOk) = names.countP fun name => !(given name).isOk := by
  have all := congrArg (List.countP fun answer => !answer.isOk) answers
  have none : tail.countP (fun answer => !answer.isOk) = 0 := by
    rw [List.countP_eq_zero]
    intro answer mem
    rw [ends answer mem]
    simp [Except.isOk, Except.toBool]
  rwa [List.countP_append, List.countP_map, List.countP_map, none, Nat.add_zero] at all

end Report

/-! ### Draining with a new queue -/

/-- What draining does to the records of a folder, and what its report says about them: the names
are those of the records that were there, in the order in which they are due. -/
structure DrainAccount (folder target : Key) (output : Option Path) (before last : FileTree)
    (names : List Name) (limit : Nat) (run : List Turn) : Prop where
  consumed : run.map Turn.answer = (names.take limit).map (Stored.given before folder)
    ++ if names.length < limit then [.ok none] else []
  left : (Stored.listed last folder FileNames.committed).Perm (names.drop limit)
  kept : ∀ name ∈ names.drop limit,
    last.lookup (folder ++ [name]) = before.lookup (folder ++ [name])
  listed : entries output 0 run = (names.take limit).zipIdx.filterMap fun numbered =>
    listed? (Stored.given before folder numbered.1)
      (writtenTo? output numbered.2 (run[numbered.2]?.bind Turn.written))
  drained : (entries output 0 run).length
    = (names.take limit).countP fun name => (Stored.given before folder name).isOk
  failed : failures run
    = (names.take limit).countP (fun name => !(Stored.given before folder name).isOk)
      + run.countP Turn.unwritten
  unasked : output = none → ∀ turn ∈ run, turn.written = none
  written : output ≠ none → ∀ index name transmission, (names.take limit)[index]? = some name →
    Stored.given before folder name = .ok (some transmission) →
    run[index]?.bind Turn.written = some (.ok ()) ∧
        (∃ modified, last.lookup (target ++ [payloadName index])
          = some (.file transmission.content modified)) ∨
      ∃ e, run[index]?.bind Turn.written = some (.error e)

/-- What is due is accounted for. -/
theorem Due.account (h : Due size order folder target output queue host names) (limit : Nat) :
    DrainAccount folder target output host.tree (turns output 0 limit queue host).2.2.tree names
      limit (turns output 0 limit queue host).1 := by
  obtain ⟨answers, left, kept⟩ := h.consumed 0 limit
  have trace := h.scene.trace 0 limit
  dsimp only at answers left kept trace
  have ends : ∀ answer ∈ (if names.length < limit then [.ok none] else [] :
      List (Except QueueError (Option Transmission))), answer = .ok none := by
    split <;> simp
  have listed : entries output 0 (turns output 0 limit queue host).1 = _ :=
    entries_eq (fun index => (turns output 0 limit queue host).1[index]?.bind Turn.written) answers
      ends fun index turn found => by
        rw [Nat.zero_add, found]
        rfl
  refine ⟨answers, left, kept, listed, ?_, ?_, ?_, ?_⟩
  · rw [listed]
    exact length_filterMap_listed (fun name _ => Stored.decoded_ne_nothing _) _
  · rw [trace.failures_eq, countP_answers answers ends]
  · rintro rfl turn mem
    exact trace.unasked mem
  · intro asked index name transmission found given
    have bound : index < (names.take limit).length := (List.getElem?_eq_some_iff.mp found).1
    have answered := congrArg (fun answers => answers[index]?) answers
    rw [List.getElem?_map, List.getElem?_append_left (by rwa [List.length_map]), List.getElem?_map,
      found, Option.map_some, given] at answered
    obtain ⟨turn, there, answer⟩ := Option.map_eq_some_iff.mp answered
    rw [there, Option.bind_some]
    rcases trace.written_or_failed asked (List.mem_of_getElem? there) answer with
      written | ⟨-, e, written⟩
    · obtain ⟨modified, file⟩ := trace.payload there answer written
      rw [Nat.zero_add] at file
      exact .inl ⟨written, modified, file⟩
    · exact .inr ⟨e, written⟩

/-- Only the entries of the folder matter for what is consumed. -/
theorem DrainAccount.of_same {before other last : FileTree} {limit : Nat} {run : List Turn}
    (h : DrainAccount folder target output other last names limit run)
    (same : ∀ name, other.lookup (folder ++ [name]) = before.lookup (folder ++ [name])) :
    DrainAccount folder target output before last names limit run := by
  have given : Stored.given other folder = Stored.given before folder :=
    funext fun name => Stored.given_congr (same name)
  obtain ⟨consumed, left, kept, listed, drained, failed, unasked, written⟩ := h
  rw [given] at consumed listed drained failed written
  exact ⟨consumed, left, fun name mem => (kept name mem).trans (same name), listed, drained, failed,
    unasked, written⟩

section Opened

variable {options : Queue.Options} {fallback : Path} {token : ProcessToken} {start ready : Host}

/-- A new queue that is alone consumes the records of its folder in the order of its batches, as
far as the limit goes, and leaves the others as they are. Its report lists those that can be
decoded, with the files that their payloads have been written to, and counts the others and the
payloads that could not be written. Without its output directory it consumes nothing. This needs
that no fault strikes but when a file is removed or a payload written, that the system takes the
paths of the records, that the path of the folder does not lead through a temporary name, and that
the output directory is not made in the folder. -/
theorem drain_accounted
    (opened : (Queue.openWith options fallback token).run start = (.ok queue, ready))
    (offers : ready.Offers folder) (aside : ready.ReachesAside folder queue.directory)
    (calm : ready.TakesCalmly)
    (takeable : ∀ name ∈ Stored.listed ready.tree folder FileNames.committed,
      ready.tree.Takeable folder name)
    (fits : ∀ name ∈ Stored.listed ready.tree folder FileNames.committed,
      Fits queue.directory name) (limit : Nat) :
    let ran := (runDrain queue output limit).run ready
    (∀ path e, output = some path → ((Program.ensureDirectories path).run ready).1 = .error e →
      ran.1.code = ExitCode.badConfiguration.number ∧ ran.1.output matches .nothing ∧
        ∀ name ∈ Stored.listed ready.tree folder FileNames.committed,
          ran.2.tree.lookup (folder ++ [name]) = ready.tree.lookup (folder ++ [name])) ∧
    ∀ made, Prepared output ready made →
      (∀ path, output = some path → made.Receives target path) →
      (∀ name, made.tree.lookup (folder ++ [name]) = ready.tree.lookup (folder ++ [name])) →
      let run := (turns output 0 limit queue made).1
      (∃ time tracked, ran.1 = drainReport time (entries output 0 run) (failures run) tracked) ∧
      ∃ names, names.Pairwise (· < ·) ∧
        names.Perm (Stored.listed ready.tree folder FileNames.committed) ∧
        DrainAccount folder target output ready.tree ran.2.tree
          (Candidates.arranged (max options.cacheSize.toNat 1) options.refillOrder names) limit
          run := by
  intro ran
  constructor
  · rintro path e rfl unmade
    obtain ⟨code, nothing, same⟩ :=
      run_runDrain_of_unmade (Prod.ext unmade rfl : _ = (Except.error e, _)) queue limit
    refine ⟨code, nothing, ?_⟩
    intro name mem
    obtain ⟨-, content, modified, there⟩ := Stored.mem_listed.mp mem
    have grows := Program.grows_ensureDirectories offers.wellFormed offers.current path
    rw [there, show ran.2.tree = _ from same]
    exact grows.kept there
  · intro made prepared receives apart run
    obtain ⟨time, all⟩ := run_drainAll queue output limit made
    have ended : ran = _ := (run_runDrain prepared queue limit).trans all
    obtain ⟨-, -, candidates, accepted⟩ := Queue.of_opened opened
    obtain ⟨others, perm, ascending⟩ :=
      Candidates.exists_ascending (Stored.nodup_listed ready.tree folder FileNames.committed)
    have scene := scene_of_opened opened offers aside.reaches prepared receives
    have undisturbed := undisturbed_of_opened opened offers prepared calm aside
    have drainable : queue.Drainable options.cacheSize options.refillOrder folder ready.cleared []
        others := {
      serves := Host.serves_cleared.mpr (offers.serves aside.reaches)
      steady := ready.steady_cleared
      accepted := accepted
      aside := aside
      candidates := candidates
      firstAscend := List.Pairwise.nil
      othersAscend := ascending
      listed := perm
      takeable := takeable
      fits := fits }
    have beside := drainable.beside (Host.serves_cleared.mpr scene.serves) made.steady_cleared
      undisturbed.aside fun _ _ _ => apart _
    have due : Due options.cacheSize options.refillOrder folder target output queue made
        (Candidates.arranged (max options.cacheSize.toNat 1) options.refillOrder others) :=
      ⟨⟨[], others, beside, rfl⟩, receives, undisturbed.calm⟩
    rw [ended]
    exact ⟨⟨time, _, rfl⟩, others, ascending, perm, (due.account limit).of_same apart⟩

/-- A folder `/s` with a record. -/
def recordInFolder : FileTree :=
  (FileTree.empty.insert ([] ++ [[0x73]]) .directory).insert ([[0x73]] ++ [asCommitted [0x61]])
    (.file Queue.smallRecord 0)

theorem wellFormed_recordInFolder : recordInFolder.WellFormed := by
  have folder : (FileTree.empty.insert ([] ++ [[0x73]]) .directory).WellFormed :=
    (Host.offers_quiet 0 (.start 0)).wellFormed.insert (by decide) rfl (by decide +kernel) _
  exact folder.insert
    (FileNames.isProper_withExtension FileNames.committed_mem_extensions (by decide))
    (by decide +kernel) (by decide +kernel) _

/-- One record can be decoded, and the one behind it is empty. -/
theorem drain_accounted_of_empty :
    let tree := recordInFolder.insert ([[0x73]] ++ [asCommitted [0x62]]) (.file [] 0)
    let start := Host.quiet tree [] 1700000000123 (.start 0)
    let path : Path := [Path.slash, 0x6F]
    ∃ queue ready made,
      (Queue.openWith .default [Path.slash, 0x73] ⟨"abcdefgh"⟩).run start = (.ok queue, ready) ∧
      (Program.ensureDirectories path).run ready = (.ok (), made) ∧
      let run := (turns (some path) 0 100 queue made).1
      DrainAccount [[0x73]] [[0x6F]] (some path) ready.tree
          ((runDrain queue (some path) 100).run ready).2.tree
          [asCommitted [0x61], asCommitted [0x62]] 100 run ∧
        (entries (some path) 0 run).length = 1 ∧ failures run = 1 + run.countP Turn.unwritten := by
  intro tree start path
  let queue : Queue := .ofDefaults [Path.slash, 0x73] ⟨"abcdefgh"⟩ 37
  let ready := ((Queue.openWith .default [Path.slash, 0x73] ⟨"abcdefgh"⟩).run start).2
  let made := ((Program.ensureDirectories path).run ready).2
  have wf : tree.WellFormed :=
    wellFormed_recordInFolder.insert
      (FileNames.isProper_withExtension FileNames.committed_mem_extensions (by decide))
      (by decide +kernel) (by decide +kernel) _
  have opened : (Queue.openWith .default [Path.slash, 0x73] ⟨"abcdefgh"⟩).run start
      = (.ok queue, ready) := Program.run_eq (by decide +kernel)
  have begins : start.Offers [[0x73]] := ⟨wf, rfl, by decide +kernel⟩
  obtain ⟨offers, reaches⟩ := begins.of_opened opened (by decide +kernel) (by decide)
    (FileTree.isPlain_of_free (by decide +kernel))
  have prepared : (Program.ensureDirectories path).run ready = (.ok (), made) :=
    Program.run_eq (by decide +kernel)
  have grows := Program.grows_ensureDirectories offers.wellFormed offers.current path
  have receives : made.Receives [[0x6F]] path :=
    .of_grown offers.wellFormed offers.current (by decide +kernel) grows
      (Program.later_run _ ready) (by decide +kernel) (by decide +kernel)
  have listed : Stored.listed ready.tree [[0x73]] FileNames.committed
      = [[0x62], [0x61]].map asCommitted := by decide +kernel
  have later : start.Later ready := Program.later_run _ start
  have leads : (FileTree.empty.insert ([] ++ [[0x73]]) .directory).folder? ready.directory
      queue.directory = some [[0x73]] := by
    rw [later.directory]
    decide +kernel
  have calm : start.TakesCalmly := fun _ _ _ _ _ _ => rfl
  have named : ∀ base ∈ [[0x62], [0x61]], Utf8.isText (asCommitted base) = true ∧
      ready.tree.lookup ([[0x73]] ++ [asTemporary base]) ≠ some .directory ∧
      FileTree.refusal? (queue.directory.join (asCommitted base)) = none ∧
      (asCommitted base).length ≤ FileTree.maxNameLength := by decide +kernel
  have able : ∀ name ∈ Stored.listed ready.tree [[0x73]] FileNames.committed,
      ready.tree.Takeable [[0x73]] name ∧ Fits queue.directory name := by
    intro name mem
    rw [listed] at mem
    obtain ⟨base, among, rfl⟩ := List.mem_map.mp mem
    obtain ⟨text, free, accepted, short⟩ := named base among
    exact ⟨FileTree.takeable_asCommitted text free, accepted, short⟩
  obtain ⟨-, names, ascending, perm, account⟩ := (drain_accounted opened offers
    (Host.reachesAside_of_child offers.isFolder leads) (calm.later later)
    (fun name mem => (able name mem).1) (fun name mem => (able name mem).2) 100).2 made
    (show Prepared (some path) ready made from prepared)
    (fun _ given => Option.some.inj given ▸ receives)
    (FileTree.lookup_child_congr (by decide +kernel))
  have order : names = [asCommitted [0x61], asCommitted [0x62]] := by
    rw [listed] at perm
    exact (perm.trans (by decide +kernel)).eq_of_pairwise' ascending (by decide +kernel)
  have due : Candidates.arranged (max Queue.Options.default.cacheSize.toNat 1)
      Queue.Options.default.refillOrder names = [asCommitted [0x61], asCommitted [0x62]] := by
    rw [order]
    decide +kernel
  rw [due] at account
  have counts : ([asCommitted [0x61], asCommitted [0x62]].take 100).countP
        (fun name => (Stored.given ready.tree [[0x73]] name).isOk) = 1 ∧
      ([asCommitted [0x61], asCommitted [0x62]].take 100).countP
        (fun name => !(Stored.given ready.tree [[0x73]] name).isOk) = 1 := by decide +kernel
  exact ⟨queue, ready, made, opened, prepared, account, account.drained.trans counts.1,
    account.failed.trans (by rw [counts.2])⟩

end Opened

/-! ### Records that are missing -/

/-- A folder has one record, which can be taken as far as its name tells, and which can be decoded.
A new queue that may take one record lists none. -/
def Misses (start : Host) (fallback : Path) (base : Name) : Prop :=
  start.Offers [] ∧ start.Reaches [] fallback ∧ ∃ queue ready,
    (Queue.openWith .default fallback ⟨"abcdefgh"⟩).run start = (.ok queue, ready) ∧
    Stored.listed ready.tree [] FileNames.committed = [asCommitted base] ∧
    ready.tree.Takeable [] (asCommitted base) ∧
    (Stored.given ready.tree [] (asCommitted base)).isOk ∧
    ∃ time failed tracked,
      ((runDrain queue none 1).run ready).1 = drainReport time [] failed tracked

theorem misses_of_entries {start ready : Host} {fallback : Path} {base : Name}
    (offers : start.Offers []) (reaches : start.Reaches [] fallback)
    (opened : (Queue.openWith .default fallback ⟨"abcdefgh"⟩).run start = (.ok queue, ready))
    (listed : Stored.listed ready.tree [] FileNames.committed = [asCommitted base])
    (text : Utf8.isText (asCommitted base) = true)
    (free : ready.tree.lookup ([] ++ [asTemporary base]) ≠ some .directory)
    (decodes : (Stored.given ready.tree [] (asCommitted base)).isOk)
    (none : entries none 0 (turns none 0 1 queue ready).1 = []) : Misses start fallback base := by
  obtain ⟨time, ran⟩ := run_drainAll queue .none 1 ready
  rw [none, ← run_runDrain (show Prepared .none ready ready from rfl)] at ran
  exact ⟨offers, reaches, queue, ready, opened, listed, FileTree.takeable_asCommitted text free,
    decodes, time, _, _, congrArg Prod.fst ran⟩

/-- The path of a record may be too long for the system, and the path of the folder may lead
through a link that gives way to the record. If the output directory is a file, nothing is
reported, and the record stays. -/
theorem drain_misses_records :
    let long : Name := List.replicate 251 0x61
    let slashes : Path := List.replicate 3900 Path.slash
    let short : Name := [0x61]
    let linked := (Queue.recordAlone short).insert ([] ++ [asTemporary short]) (.link [Path.dot])
    let blocked := recordInFolder.insert ([] ++ [[0x6F]]) (.file [] 0)
    let host := fun tree => Host.quiet tree [] 1700000000123 (.start 0)
    Misses (host (Queue.recordAlone long)) slashes long ∧
      Misses (host linked) (Path.slash :: asTemporary short) short ∧
      (host blocked).Offers [[0x73]] ∧ ∃ queue ready,
        (Queue.openWith .default [Path.slash, 0x73] ⟨"abcdefgh"⟩).run (host blocked)
          = (.ok queue, ready) ∧
        let ran := (runDrain queue (some [Path.slash, 0x6F]) 1).run ready
        Stored.listed ready.tree [[0x73]] FileNames.committed = [asCommitted short] ∧
          ran.1.output matches .nothing ∧
          Stored.listed ran.2.tree [[0x73]] FileNames.committed = [asCommitted short] := by
  intro long slashes short linked blocked host
  refine ⟨?_, ?_, ?_⟩
  · obtain ⟨offers, reaches, queue, ready, opened, kept, stuck⟩ := exists_stuck_of_long
    refine misses_of_entries offers reaches opened stuck.listed (by decide +kernel) ?_ ?_
      (stuck.turns none 0 1).2.2
    · rw [kept _ FileNames.temporary_mem_extensions]
      decide +kernel
    · have given : Stored.given ready.tree [] (asCommitted long)
          = Stored.given (Queue.recordAlone long) [] (asCommitted long) :=
        Stored.given_congr (kept _ FileNames.committed_mem_extensions long)
      rw [given]
      decide +kernel
  · have wf : linked.WellFormed :=
      (Queue.wellFormed_recordAlone (by decide)).insert
        (FileNames.isProper_withExtension FileNames.temporary_mem_extensions (by decide))
        rfl (by decide +kernel) _
    have opened : (Queue.openWith .default (Path.slash :: asTemporary short) ⟨"abcdefgh"⟩).run
        (host linked)
          = (.ok (Queue.ofDefaults (Path.slash :: asTemporary short) ⟨"abcdefgh"⟩ 37), _) :=
      Program.run_eq (by decide +kernel)
    exact misses_of_entries ⟨wf, rfl, rfl⟩ (by decide +kernel) opened (by decide +kernel)
      (by decide +kernel) (by decide +kernel) (by decide +kernel) (by decide +kernel)
  · have wf : blocked.WellFormed :=
      wellFormed_recordInFolder.insert (by decide) rfl (by decide +kernel) _
    exact ⟨⟨wf, rfl, by decide +kernel⟩, Queue.ofDefaults [Path.slash, 0x73] ⟨"abcdefgh"⟩ 37, _,
      Program.run_eq (by decide +kernel), by decide +kernel, by decide +kernel, by decide +kernel⟩

end Command
end DiskQueue
