/-
Module: DiskQueue.Proofs.OneState
Purpose: No name is that of a record and that of a temporary file at the same time, so
  no file is lost to another one that gets its name.
Trusted boundary: none
Main exports:
  FileTree.OneState, Ledger.Books.oneState_step, Queue.renames_request, Fleet.one_state
-/
import DiskQueue.Proofs.Ledger
import DiskQueue.Proofs.Renaming

namespace DiskQueue

open FileTree (Begun Committed Took Swept Spared)
open FileNames (asCommitted asTemporary)

/-!
Files that are being written, files that are being taken and the leftovers of both share
one extension, and a file may lose its name to any of them. A queue never overwrites by
intention: it makes a new file only where nothing stands. For a change of name there is
no such guard, and the name is free for another reason. The final name of a record that
is written has just been drawn, and no queue draws a name twice. The temporary name of a
record that is taken has the same base name as the record itself, and where there is a
record there is no temporary file.
-/

/-! ### Names in one state -/

namespace FileTree

variable {folder : Key} {before after : FileTree} {base : Name}

/-- There is no base name with a record and a temporary entry. -/
def OneState (folder : Key) (tree : FileTree) : Prop :=
  ∀ base, base ≠ [] → tree.lookup (folder ++ [asCommitted base]) = none ∨
    tree.lookup (folder ++ [asTemporary base]) = none

/-- A change keeps this up name by name: where one of the two entries is missing afterwards, or
both are as they were. -/
theorem OneState.of_names (one : OneState folder before)
    (names : ∀ base, (after.lookup (folder ++ [asCommitted base]) = none ∨
        after.lookup (folder ++ [asTemporary base]) = none) ∨
      after.lookup (folder ++ [asCommitted base]) = before.lookup (folder ++ [asCommitted base]) ∧
        after.lookup (folder ++ [asTemporary base]) = before.lookup (folder ++ [asTemporary base])) :
    OneState folder after := by
  intro base nonempty
  rcases names base with missing | ⟨committed, temporary⟩
  · exact missing
  · rw [committed, temporary]
    exact one base nonempty

/-- A temporary file that is new has a name without a record. -/
theorem OneState.begun {record : Bytes} (one : OneState folder before)
    (begun : Begun folder base record before after)
    (free : before.lookup (folder ++ [asCommitted base]) = none) : OneState folder after := by
  obtain ⟨content, modified, -, sets⟩ := begun.sets
  have committed : ∀ name, after.lookup (folder ++ [asCommitted name])
      = before.lookup (folder ++ [asCommitted name]) :=
    fun name => sets.lookup_sibling (FileNames.committed_ne_temporary name base)
  apply one.of_names
  intro name
  by_cases own : name = base
  · rw [own, committed]
    exact .inl (.inl free)
  · exact .inr ⟨committed name, sets.lookup_sibling fun same =>
      own (FileNames.withExtension_injective same)⟩

/-- A record is written with its temporary file gone. -/
theorem OneState.committed {record : Bytes} (one : OneState folder before)
    (committed : Committed folder base record before after) : OneState folder after := by
  obtain ⟨modified, sets⟩ := committed.sets
  have temporary : ∀ name, after.lookup (folder ++ [asTemporary name])
      = before.lookup (folder ++ [asTemporary name]) :=
    fun name => sets.lookup_sibling (FileNames.committed_ne_temporary base name).symm
  apply one.of_names
  intro name
  by_cases own : name = base
  · rw [own, temporary]
    exact .inl (.inr committed.free)
  · exact .inr ⟨sets.lookup_sibling fun same => own (FileNames.withExtension_injective same),
      temporary name⟩

/-- A record is taken with its name gone, whether its temporary file stays or not. -/
theorem OneState.took {content : Bytes} (one : OneState folder before)
    (took : Took folder base content before after) : OneState folder after := by
  apply one.of_names
  intro name
  by_cases own : name = base
  · rw [own]
    exact .inl (.inl took.lookup_committed)
  · refine .inr ⟨took.lookup_committed_other own, took.lookup_other ?_ ?_⟩
    · exact (FileNames.committed_ne_temporary base name).symm
    · exact fun same => own (FileNames.withExtension_injective same)

theorem OneState.swept (one : OneState folder before) (swept : Swept folder before after) :
    OneState folder after := by
  apply one.of_names
  intro name
  rcases swept (folder ++ [asTemporary name]) with same | ⟨gone, -⟩
  · exact .inr ⟨swept.lookup_committed name, same⟩
  · exact .inl (.inr gone)

/-- The file of the check has the extension of neither. -/
theorem OneState.checked {token : ProcessToken} (one : OneState folder before)
    (valid : token.IsValid) (checked : Queue.Checked folder token before after) :
    OneState folder after := by
  rcases checked with rfl | ⟨node?, -, sets⟩
  · exact one
  have other : ∀ name, ∀ extension ∈ FileNames.extensions,
      after.lookup (folder ++ [FileNames.withExtension name extension])
        = before.lookup (folder ++ [FileNames.withExtension name extension]) :=
    fun name extension mem => sets.lookup_sibling fun same =>
      FileNames.append_bytes_ne_withExtension _ valid mem same.symm
  exact one.of_names fun name => .inr ⟨other name _ FileNames.committed_mem_extensions,
    other name _ FileNames.temporary_mem_extensions⟩

end FileTree

open FileTree (OneState)

/-! ### Every piece of work -/

namespace Queue

variable {queue : Queue} {folder : Key} {host after : Host}

/-- No name that a queue is about to draw is that of a record. -/
def DrawsFree (queue : Queue) (folder : Key) (tree : FileTree) : Prop :=
  ∀ millis offset, offset < maxStagingAttempts →
    tree.lookup (folder ++ [asCommitted (queue.base millis offset)]) = none

theorem StoreOutcome.oneState {record : Bytes} {outcome : Except QueueError Path × Queue}
    (one : OneState folder host.tree)
    (free : ∀ millis offset, offset < maxStagingAttempts →
      outcome.2 = queue.advance (offset + 1) →
      host.tree.lookup (folder ++ [asCommitted (queue.base millis offset)]) = none)
    (h : StoreOutcome queue folder record host after outcome) : OneState folder after.tree := by
  cases h with
  | refused e drawn bound same => exact same ▸ one
  | abandoned e number offset bound begun => exact one.begun begun (free _ offset bound rfl)
  | stored number offset bound since before fits committed => exact one.committed committed

theorem StoreCut.oneState {record : Bytes} {tree : FileTree} (one : OneState folder host.tree)
    (free : queue.DrawsFree folder host.tree) (h : StoreCut queue folder record host.tree tree) :
    OneState folder tree := by
  rcases h with rfl | ⟨millis, offset, bound, begun | ⟨-, committed⟩⟩
  · exact one
  · exact one.begun begun (free millis offset bound)
  · exact one.committed committed

theorem DequeueOutcome.oneState {outcome : Except QueueError (Option Transmission) × Queue}
    (one : OneState folder host.tree) (h : DequeueOutcome queue folder host after outcome) :
    OneState folder after.tree := by
  cases h with
  | unlisted e same => exact same ▸ one
  | nothing same => exact same ▸ one
  | claimed base result taken slash claim consumed =>
    cases consumed with
    | failed e same => exact same ▸ one
    | took content _ took => exact one.took took

/-! ### Every rename -/

/-- A rename that takes nobody's place. -/
def RenamesToFree (folder : Key) (source target : Path) (during : Host) : Prop :=
  Spared folder during.tree (during.operate (.rename source target)).2.tree

open Program (KeepsNames keepsNames_pure keepsNames_log)

/-- A record gets its final name when its temporary file is there, under a name that was
drawn for it. -/
theorem renames_commitRecord {record : Bytes} (serves : host.Serves folder queue.directory)
    (valid : queue.token.IsValid) (free : queue.DrawsFree folder host.tree) :
    (queue.commitRecord record).Renames (RenamesToFree folder) host := by
  have staging : Program.Meets (fun _ => True) _ _ host :=
    meets_createStaging maxStagingAttempts serves valid trivial fun _ _ _ _ _ _ _ => trivial
  refine ((keepsNames_createStaging queue _).renames host).bind staging ?_
  intro outcome staged later made
  cases made with
  | failed e drawn => exact (keepsNames_pure _).renames staged
  | made number offset bound since before reaches fits vacant modified sets =>
    have slash := slash_notMem_base valid (host.clock number) offset
    have proper := FileNames.isProper_withExtension FileNames.temporary_mem_extensions slash
    have proper' := FileNames.isProper_withExtension FileNames.committed_mem_extensions slash
    have other := FileNames.committed_ne_temporary (queue.base (host.clock number) offset)
      (queue.base (host.clock number) offset)
    have serves := serves.follow later (sets.follows (by simp [vacant]) serves.isFolder
      (by rintro node ⟨⟩; exact ⟨rfl, proper⟩))
    have writing : Program.Meets (fun _ => True) _
        (writeSynced (queue.directory.join _) record) staged :=
      meets_writeSynced serves proper sets.lookup_self fun _ _ _ _ _ => trivial
    refine ((keepsNames_writeSynced _ _).renames staged).bind writing ?_
    rintro result written laterWritten ⟨content, modified', -, -, again⟩
    cases result with
    | error e => exact (keepsNames_pure _).renames written
    | ok done =>
      have serves := serves.follow laterWritten (again.follows (by simp [sets.lookup_self])
        serves.isFolder (by rintro node ⟨⟩; exact ⟨rfl, proper⟩))
      have base : FileNames.baseName?
          (FileNames.temporaryPath queue.directory (queue.base (host.clock number) offset))
            = some (queue.base (host.clock number) offset) :=
        FileNames.baseName?_join_staging queue.directory valid
      unfold publish
      simp only [base]
      apply Program.renames_rename
      · apply Host.spared_rename serves proper proper' other.symm
        · exact FileTree.isPlain_of_file again.lookup_self
        · intro _ _ _
          rw [again.lookup_sibling other, sets.lookup_sibling other]
          exact free _ offset bound
      · intro reply
        cases reply with
        | error e => exact keepsNames_pure _
        | ok done => exact (keepsNames_log _ _).bind fun _ => keepsNames_pure _

theorem renames_tryStore {record : Except IoError Bytes}
    (serves : host.Serves folder queue.directory) (valid : queue.token.IsValid)
    (free : queue.DrawsFree folder host.tree) :
    (queue.tryStore record).Renames (RenamesToFree folder) host := by
  unfold tryStore
  split
  · exact (keepsNames_pure _).renames host
  · cases record with
    | error e => exact (keepsNames_pure _).renames host
    | ok bytes => exact renames_commitRecord serves valid free

/-- A record gets a temporary name while it is there, so that no temporary file is. -/
theorem renames_consume (queue : Queue) {base : Name} (serves : host.Serves folder queue.directory)
    (nonempty : base ≠ []) (slash : Path.slash ∉ base)
    (plain : host.tree.IsPlain folder (asCommitted base)) (one : OneState folder host.tree) :
    (queue.consume ⟨FileNames.committedPath queue.directory base, base⟩).Renames
      (RenamesToFree folder) host := by
  have proper := FileNames.isProper_withExtension FileNames.committed_mem_extensions slash
  have proper' := FileNames.isProper_withExtension FileNames.temporary_mem_extensions slash
  have looks : (Program.stat (FileNames.committedPath queue.directory base)).ReadsOnly :=
    ⟨rfl, fun _ => trivial⟩
  refine (looks.keepsNames.renames host).bind (looks.meets host) ?_
  intro result found later same
  cases result with
  | error e => exact (keepsNames_pure _).renames found
  | ok stat =>
    rw [← same] at plain one
    apply Program.renames_rename
    · apply Host.spared_rename (serves.unchanged later same) proper proper'
        (FileNames.committed_ne_temporary base base) plain
      intro content modified there
      rcases one base nonempty with absent | free
      · rw [absent] at there
        cases there
      · exact free
    · intro reply
      cases reply with
      | error e => exact keepsNames_pure _
      | ok done => exact (keepsNames_finish queue _).bind fun _ => keepsNames_pure _

theorem renames_tryDequeue (serves : host.Serves folder queue.directory)
    (sound : queue.candidates.Sound folder queue.directory host.tree)
    (one : OneState folder host.tree) :
    queue.tryDequeue.Renames (RenamesToFree folder) host := by
  have taking : Program.Meets (fun _ => True) _ _ host :=
    Candidates.meets_take queue.candidates serves trivial
  refine ((keepsNames_take queue.candidates queue.directory).renames host).bind taking ?_
  rintro outcome taken later ⟨same, ⟨e, rfl, -⟩ | rfl⟩
  · exact (keepsNames_pure _).renames taken
  have next := (sound.refreshed serves.wellFormed).next
  cases claim : (queue.candidates.refreshed host.tree folder queue.directory).next.1 with
  | none => exact (keepsNames_pure _).renames taken
  | some found =>
    obtain ⟨base, rfl, nonempty, slash, plain, -⟩ := next.1 found claim
    rw [← same] at plain one
    have consuming := renames_consume { queue with
        candidates := (queue.candidates.refreshed host.tree folder queue.directory).next.2 }
      (serves.unchanged later same) nonempty slash plain one
    apply consuming.followed
    intro outcome
    exact keepsNames_pure _

/-- Whatever a queue is asked for, it never gives a file a name that is not free. -/
theorem renames_request (request : Request) (serves : host.Serves folder queue.directory)
    (sound : queue.candidates.Sound folder queue.directory host.tree)
    (valid : queue.token.IsValid) (free : queue.DrawsFree folder host.tree)
    (one : OneState folder host.tree) :
    (request.program queue).Renames (RenamesToFree folder) host := by
  cases request with
  | tryStore payload =>
    rw [Request.program, payload.tryEnqueue_eq]
    exact (renames_tryStore serves valid free).followed fun _ => keepsNames_pure _
  | store payload =>
    rw [Request.program, payload.enqueue_eq]
    exact ((renames_tryStore serves valid free).followed keepsNames_reportStored).followed
      fun _ => keepsNames_pure _
  | tryTake => exact (renames_tryDequeue serves sound one).followed fun _ => keepsNames_pure _
  | take =>
    apply Program.Renames.followed
    · apply (renames_tryDequeue serves sound one).followed
      rintro ⟨result, later⟩
      cases result with
      | ok found => exact keepsNames_pure _
      | error e => exact (keepsNames_log _ _).bind fun _ => keepsNames_pure _
    · exact fun _ => keepsNames_pure _
  | setCapacity megabytes =>
    exact ((keepsNames_setCapacity queue megabytes).renames host).followed
      fun _ => keepsNames_pure _
  | status =>
    exact ((readsOnly_status queue).keepsNames.renames host).followed fun _ => keepsNames_pure _
  | sweep minAgeMs =>
    exact ((keepsNames_sweep queue minAgeMs).renames host).followed fun _ => keepsNames_pure _

/-! ### Every run -/

theorem Served.oneState {request : Request} {answer : Answer} {later : Queue}
    (one : OneState folder host.tree)
    (free : ∀ millis offset, offset < maxStagingAttempts →
      later.sequence = queue.sequence + UInt64.ofNat (offset + 1) →
      host.tree.lookup (folder ++ [asCommitted (queue.base millis offset)]) = none)
    (h : Served queue folder host after request (answer, later)) : OneState folder after.tree := by
  cases h with
  | storing payload _ result _ asked said silent outcome =>
    rcases outcome with ⟨-, -, same⟩ | ⟨bytes, -, outcome⟩
    · exact same ▸ one
    · apply outcome.oneState one
      intro millis offset bound eq
      exact free millis offset bound (congrArg Queue.sequence eq)
  | taking _ result _ asked silent said outcome => exact outcome.oneState one
  | other _ capacityMb asked takesNone silent silent' swept => exact one.swept swept

theorem RequestCut.oneState {request : Request} {tree : FileTree}
    (one : OneState folder host.tree) (free : queue.DrawsFree folder host.tree)
    (h : RequestCut queue folder request host.tree tree) : OneState folder tree := by
  unfold RequestCut at h
  split at h
  · rcases h with rfl | ⟨bytes, -, stopped⟩
    · exact one
    · exact stopped.oneState one free
  · rcases h with swept | ⟨-, rfl | ⟨base, content, -, took⟩⟩
    · exact one.swept swept
    · exact one
    · exact one.took took

theorem OpenOutcome.oneState {options : Options} {fallback : Path} {token : ProcessToken}
    {result : Except QueueError Queue} (one : OneState folder host.tree) (valid : token.IsValid)
    (h : OpenOutcome options fallback token folder host after result) :
    OneState folder after.tree := by
  cases h with
  | refused e checked => exact one.checked valid checked
  | opened size sets => exact one.checked valid (.inr ⟨none, by simp, sets⟩)

end Queue

namespace Ledger

variable {folder : Key} {start : Host} {history : History} {happening : Happening}
  {ledger : Ledger} {fleet last : Fleet}

/-- A queue that has numbers left draws names that are free. -/
theorem Books.drawsFree {queue : Queue} (books : Books folder start history fleet.host.tree ledger)
    (crew : Fleet.Crew folder start history fleet)
    (allowed : History.Allowed folder start.tree history) (mem : queue ∈ fleet.queues)
    (room : queue.sequence.toNat + Queue.maxStagingAttempts ≤ 2 ^ 64) :
    queue.DrawsFree folder fleet.host.tree := by
  intro millis offset bound
  exact books.lookup_drawn allowed (crew.known queue mem).1 (crew.numbers queue mem) (by omega)
    millis

theorem Books.oneState_step (books : Books folder start history fleet.host.tree ledger)
    (crew : Fleet.Crew folder start history fleet)
    (allowed : History.Allowed folder start.tree (history ++ [happening]))
    (one : OneState folder fleet.host.tree) (step : Fleet.Step folder fleet happening last) :
    OneState folder last.host.tree := by
  have earlier := allowed.init
  have plain : ∀ token, happening.token? = some token →
      fleet.host.tree.IsPlain folder (Queue.checkName token) :=
    fun token opens => books.plain allowed opens
  have valid : ∀ token, happening.token? = some token → token.IsValid :=
    fun token opens => allowed.valid token (by simp [opens])
  cases step with
  | opened first last queues options fallback token queue reaches run =>
    have outcome := (Queue.meets_openWith (crew.offers.serves reaches) reaches (valid token rfl)
      (plain token rfl)).run
    rw [run] at outcome
    exact outcome.oneState one (valid token rfl)
  | refused first last queues options fallback token e reaches run =>
    have outcome := (Queue.meets_openWith (crew.offers.serves reaches) reaches (valid token rfl)
      (plain token rfl)).run
    rw [run] at outcome
    exact outcome.oneState one (valid token rfl)
  | answered first last front behind queue later request answer run =>
    obtain ⟨serves, sound, tokenValid, known, path, number⟩ := crew.member earlier.valid
    have served := (Queue.meets_request request serves sound tokenValid).run
    rw [run] at served
    apply served.oneState one
    intro millis offset bound sequence
    have room := allowed.numbers queue.token (by simp [known])
    rw [History.drawn_append, Fleet.drawn_answered request answer bound sequence, ← number] at room
    exact books.lookup_drawn earlier known number (by omega) millis
  | closed first front behind queue => exact one
  | cutOpening first last queues options fallback token reaches stopped =>
    have checked := (Queue.meets_openWith (crew.offers.serves reaches) reaches (valid token rfl)
      (plain token rfl)).cut stopped
    exact one.checked (valid token rfl) checked
  | cut first last front behind queue request stopped =>
    obtain ⟨serves, sound, tokenValid, known, path, number⟩ := crew.member earlier.valid
    have room := allowed.numbers queue.token (by simp [known])
    rw [History.drawn_append, Happening.drawn, if_pos rfl, ← number] at room
    have free : queue.DrawsFree folder first.tree := by
      intro millis offset bound
      exact books.lookup_drawn earlier known number (by omega) millis
    exact ((Queue.meets_request request serves sound tokenValid).cut stopped).oneState one free

end Ledger

namespace Fleet

variable {folder : Key} {start : Host} {history : History} {fleet : Fleet}

theorem Run.oneState (offers : start.Offers folder) (one : OneState folder start.tree)
    (run : Run folder ⟨start, []⟩ history fleet)
    (allowed : history.Allowed folder start.tree) : OneState folder fleet.host.tree := by
  induction run with
  | start => exact one
  | step mid after history happening run step ih =>
    obtain ⟨crew, ledger, books, -⟩ := Ledger.exists_books offers run allowed.init
    exact books.oneState_step crew allowed (ih allowed.init) step

/-- Where no base name has a record and a temporary entry at the start, none ever has, whatever
the queues are asked for and whatever fails; and no rename takes the place of an entry. Work that
is cut off is a part of runs, so this holds between the calls of a piece of work as well. -/
theorem one_state (offers : start.Offers folder) (one : OneState folder start.tree)
    (run : Run folder ⟨start, []⟩ history fleet) (allowed : history.Allowed folder start.tree) :
    OneState folder fleet.host.tree ∧
      ∀ queue ∈ fleet.queues, queue.sequence.toNat + Queue.maxStagingAttempts ≤ 2 ^ 64 →
        ∀ request : Request,
          (request.program queue).Renames (Queue.RenamesToFree folder) fleet.host := by
  have kept := run.oneState offers one allowed
  refine ⟨kept, ?_⟩
  intro queue mem room request
  obtain ⟨crew, ledger, books, -⟩ := Ledger.exists_books offers run allowed
  exact Queue.renames_request request (crew.serves queue mem) (crew.sound queue mem)
    (allowed.valid _ (crew.known queue mem).1) (books.drawsFree crew allowed mem room) kept

/-- A record is stored by one queue and taken by another one while no temporary file can be removed,
and then a second one is stored: its file and the leftover of the first are in the folder. -/
theorem one_state_of_failing_removal :
    let stuck : FileOp → Option IoError := fun op =>
      match op with
      | .remove path =>
        if FileNames.hasExtension path FileNames.temporary then some .alreadyExists else none
      | _ => none
    let start : Host :=
      { Host.quiet FileTree.empty [] 1700000000123 (.start 0) with fault := fun _ => stuck }
    let left := FileNames.generated 1700000000123 ⟨"abcdefgh"⟩ 0
    ∃ history fleet, OneState [] start.tree ∧ Run [] ⟨start, []⟩ history fleet ∧
      history.stored = [.bare [1], .bare [2]] ∧ history.delivered = [.ofBytes [1]] ∧
      (fleet.host.tree.lookup [asTemporary left]).isSome ∧ fleet.queues.length = 2 ∧
      OneState [] fleet.host.tree ∧ ∀ queue ∈ fleet.queues, ∀ request : Request,
        (request.program queue).Renames (Queue.RenamesToFree []) fleet.host := by
  intro stuck start left
  let writer : Queue := .ofDefaults [Path.slash] ⟨"abcdefgh"⟩ 0
  let reader : Queue := .ofDefaults [Path.slash] ⟨"22222222"⟩ 0
  let ready := ((Queue.openWith .default [Path.slash] ⟨"abcdefgh"⟩).run start).2
  let both := ((Queue.openWith .default [Path.slash] ⟨"22222222"⟩).run ready).2
  let first := writer.session [.tryStore (.bare [1])] both
  let taken := reader.session [.tryTake] first.2.2
  let second := first.2.1.session [.store (.bare [2])] taken.2.2
  have opened : (Queue.openWith .default [Path.slash] ⟨"abcdefgh"⟩).run start
      = (.ok writer, ready) := Program.run_eq (by decide +kernel)
  have joined : (Queue.openWith .default [Path.slash] ⟨"22222222"⟩).run ready
      = (.ok reader, both) := Program.run_eq (by decide +kernel)
  have one : OneState [] start.tree :=
    fun _ _ => .inl (FileTree.lookup_empty (List.cons_ne_nil _ []))
  have quiet := Host.offers_quiet 1700000000123 (.start 0)
  have offers : start.Offers [] := ⟨quiet.wellFormed, quiet.current, quiet.isFolder⟩
  have alone : Run [] ⟨start, []⟩ _ ⟨ready, [writer]⟩ :=
    (Run.start _).step _ _ _ _ _ (.opened _ _ _ _ _ _ _ (by decide +kernel) opened)
  have together : Run [] ⟨start, []⟩ _ ⟨both, [reader, writer]⟩ :=
    alone.step _ _ _ _ _ (.opened _ _ _ _ _ _ _ (by decide +kernel) joined)
  have run : Run [] ⟨start, []⟩ _ ⟨second.2.2, [taken.2.1, second.2.1]⟩ :=
    run_session [taken.2.1] [] _ (run_session [] [first.2.1] _ (run_session [reader] [] _ together))
  have room : ∀ queue ∈ [taken.2.1, second.2.1],
      queue.sequence.toNat + Queue.maxStagingAttempts ≤ 2 ^ 64 := by decide +kernel
  have allowed : History.Allowed [] start.tree
      ([] ++ [.opened ⟨"abcdefgh"⟩ [Path.slash]] ++ [.opened ⟨"22222222"⟩ [Path.slash]] ++ first.1
        ++ taken.1 ++ second.1) :=
    History.allowed_of_empty (by decide +kernel) (by decide +kernel) (by decide +kernel)
      (by decide +kernel)
  obtain ⟨still, renames⟩ := one_state offers one run allowed
  exact ⟨_, _, one, run, by decide +kernel, by decide +kernel, by decide +kernel, rfl, still,
    fun queue mem => renames queue mem (room queue mem)⟩

end Fleet
end DiskQueue
