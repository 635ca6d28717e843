/-
Module: DiskQueue.Proofs.Renaming
Purpose: Which calls a program makes and on which files, and where a queue gives files
  other names.
Trusted boundary: none
Main exports:
  Program.CallsAt, Program.OnlyCalls, Program.KeepsNames, Program.Renames,
  FileTree.Spared, Host.spared_rename
-/
import DiskQueue.Proofs.Requests

namespace DiskQueue

open FileTree (Moves)

/-!
A program tells little by its outcome about a file that it has replaced. So the calls
that it makes are followed one by one, each with the files as they are at that moment.
Most of the work of a queue gives no file another name, whatever the replies are; what is
left are two places, one where a record is stored and one where it is taken.
-/

/-! ### The calls of a program -/

namespace Program

variable {α β : Type}

/-- A program that is run makes a call, when the host is as told. -/
inductive CallsAt : Program α → Host → Call → Host → Prop
  | here (c : Call) (next : c.Reply → Program α) (host : Host) : CallsAt (.call c next) host c host
  | later (c made : Call) (next : c.Reply → Program α) (host during : Host) :
      CallsAt (next (host.answer c).1) (host.answer c).2 made during →
      CallsAt (.call c next) host made during

variable {p : Program α} {f : α → Program β} {host during : Host} {made : Call}

/-- The calls of two programs are those of the first and those of the second. -/
theorem CallsAt.of_bind (h : (p >>= f).CallsAt host made during) :
    p.CallsAt host made during ∨ (f (p.run host).1).CallsAt (p.run host).2 made during := by
  induction p generalizing host with
  | done value => exact .inr h
  | call c next ih =>
    cases h with
    | here => exact .inl (.here _ _ _)
    | later _ _ _ _ _ rest =>
      rcases ih _ rest with first | second
      · exact .inl (.later _ _ _ _ _ first)
      · exact .inr second

/-- Whatever the replies are, a program only makes calls that it may make. -/
def OnlyCalls (may : Call → Prop) : Program α → Prop
  | .done _ => True
  | .call c next => may c ∧ ∀ reply, (next reply).OnlyCalls may

variable {may : Call → Prop}

theorem OnlyCalls.bind (first : p.OnlyCalls may) (rest : ∀ value, (f value).OnlyCalls may) :
    (p >>= f).OnlyCalls may := by
  induction p with
  | done value => exact rest value
  | call c next ih => exact ⟨first.1, fun reply => ih reply (first.2 reply)⟩

theorem OnlyCalls.of_callsAt (h : p.OnlyCalls may) (calls : p.CallsAt host made during) :
    may made := by
  induction calls with
  | here => exact h.1
  | later c made next host during _ ih => exact ih (h.2 _)

theorem OnlyCalls.mono {allowed : Call → Prop} (h : p.OnlyCalls may)
    (wider : ∀ c, may c → allowed c) : p.OnlyCalls allowed := by
  induction p with
  | done value => trivial
  | call c next ih => exact ⟨wider c h.1, fun reply => ih reply (h.2 reply)⟩

/-- A program that only looks may make every call that is a look. -/
theorem ReadsOnly.onlyCalls (h : p.ReadsOnly) (looking : ∀ c, looks c = true → may c) :
    p.OnlyCalls may := by
  induction p with
  | done value => trivial
  | call c next ih => exact ⟨looking c h.1, fun reply => ih reply (h.2 reply)⟩

theorem readsOnly_iff_onlyCalls : p.ReadsOnly ↔ p.OnlyCalls (looks · = true) := by
  induction p with
  | done value => exact Iff.rfl
  | call c next ih => exact and_congr_right fun _ => forall_congr' ih

/-! ### Renames -/

/-- A program that gives no file another name. -/
def KeepsNames : Program α → Prop :=
  OnlyCalls fun c => ∀ source target, c ≠ .file (.rename source target)

/-- All renames of a program that is run are as they should be. -/
def Renames (good : Path → Path → Host → Prop) (p : Program α) (host : Host) : Prop :=
  ∀ source target during, p.CallsAt host (.file (.rename source target)) during →
    good source target during

theorem keepsNames_pure (value : α) : (pure value : Program α).KeepsNames := trivial

/-- An operation on files that is no rename. -/
theorem keepsNames_file {op : FileOp} (other : ∀ source target, op ≠ .rename source target) :
    (file op).KeepsNames :=
  ⟨fun source target same => other source target (Call.file.inj same), fun _ => trivial⟩

theorem keepsNames_now : now.KeepsNames := ⟨by simp, fun _ => trivial⟩

theorem keepsNames_log (level : Level) (message : String) :
    (log level message).KeepsNames :=
  ⟨by simp, fun _ => trivial⟩

theorem KeepsNames.bind (first : p.KeepsNames) (rest : ∀ value, (f value).KeepsNames) :
    (p >>= f).KeepsNames :=
  OnlyCalls.bind first rest

/-- A look gives no file another name. -/
theorem ne_rename_of_looks {c : Call} (looking : looks c = true) (source target : Path) :
    c ≠ .file (.rename source target) := by
  rintro rfl
  cases looking

theorem ReadsOnly.keepsNames (h : p.ReadsOnly) : p.KeepsNames :=
  h.onlyCalls fun _ => ne_rename_of_looks

variable {good : Path → Path → Host → Prop}

theorem KeepsNames.renames (h : p.KeepsNames) (host : Host) : p.Renames good host :=
  fun source target _ calls => absurd rfl (OnlyCalls.of_callsAt h calls source target)

/-- A program is followed by another one, which starts where the first one has ended. -/
theorem Renames.bind {cut : FileTree → Prop} {mid : α → Host → Prop} (first : p.Renames good host)
    (ends : Meets cut mid p host)
    (rest : ∀ value after, host.Later after → mid value after → (f value).Renames good after) :
    (p >>= f).Renames good host := by
  intro source target during calls
  rcases CallsAt.of_bind calls with calls | calls
  · exact first source target during calls
  · exact rest _ _ (later_run p host) ends.run source target during calls

/-- Work that gives no other names makes no difference afterwards. -/
theorem Renames.followed (first : p.Renames good host) (rest : ∀ value, (f value).KeepsNames) :
    (p >>= f).Renames good host := by
  intro source target during calls
  rcases CallsAt.of_bind calls with calls | calls
  · exact first source target during calls
  · exact (rest _).renames _ source target during calls

theorem renames_rename {source target : Path} {f : Except IoError Unit → Program α}
    (here : good source target host) (rest : ∀ reply, (f reply).KeepsNames) :
    (rename source target >>= f).Renames good host := by
  have alone : (rename source target).Renames good host := by
    intro source' target' during calls
    cases calls with
    | here => exact here
    | later _ _ _ _ _ done => cases done
  exact alone.followed rest

end Program

/-! ### What a rename does to the folder -/

/-- Nothing has changed, or a file has lost its name and has another one, which was free. -/
def FileTree.Spared (folder : Key) (before after : FileTree) : Prop :=
  after = before ∨ ∃ source target,
    before.lookup (folder ++ [target]) = none ∧ Moves folder source target before after

/-- A rename spares all entries if the other name of a file that is there is free. -/
theorem Host.spared_rename {folder : Key} {directory : Path} {host : Host} {source target : Name}
    (serves : host.Serves folder directory) (hs : source.IsProper) (ht : target.IsProper)
    (different : source ≠ target) (plain : host.tree.IsPlain folder source)
    (free : ∀ content modified,
      host.tree.lookup (folder ++ [source]) = some (.file content modified) →
        host.tree.lookup (folder ++ [target]) = none) :
    FileTree.Spared folder host.tree
      (host.operate (.rename (directory.join source) (directory.join target))).2.tree := by
  have met : Program.Meets (fun _ => True)
      (fun _ after => FileTree.Spared folder host.tree after.tree)
      (Program.rename (directory.join source) (directory.join target) >>= pure) host := by
    apply Program.Meets.rename serves trivial hs ht different plain
    · exact fun e after _ same _ => Program.Meets.done trivial (.inl same)
    · intro after content modified _ _ _ _ there _ moves
      exact Program.Meets.done trivial (.inr ⟨source, target, free content modified there, moves⟩)
  exact met.run

namespace Queue

open Program (OnlyCalls KeepsNames keepsNames_pure keepsNames_file keepsNames_now keepsNames_log)

/-! Taking a record is looking at the folder, one rename, and removing the file. -/

theorem onlyCalls_pop {may : Call → Prop} (telling : ∀ event, may (.log event))
    (candidates : Candidates) : candidates.pop.OnlyCalls may := by
  unfold Candidates.pop
  split
  · trivial
  · dsimp only
    split
    · trivial
    · split
      · exact ⟨telling _, fun _ => trivial⟩
      · trivial

theorem readsOnly_take (candidates : Candidates) (directory : Path) :
    (candidates.take directory).ReadsOnly := by
  have popping : ∀ candidates : Candidates, candidates.pop.ReadsOnly :=
    fun candidates => Program.readsOnly_iff_onlyCalls.mpr (onlyCalls_pop (fun _ => rfl) candidates)
  have listing : (Stored.paths directory FileNames.committed).ReadsOnly := by
    refine (readsOnly_names directory FileNames.committed).bind fun result => ?_
    cases result <;> trivial
  have filling : (candidates.refill directory).ReadsOnly := by
    refine listing.bind fun result => ?_
    cases result with
    | error e => trivial
    | ok paths => exact ⟨rfl, fun _ => trivial⟩
  unfold Candidates.take
  split
  · refine filling.bind fun result => ?_
    cases result with
    | error e => trivial
    | ok refilled => exact (popping refilled).bind fun _ => trivial
  · exact (popping candidates).bind fun _ => trivial

theorem readsOnly_beforeNextAttempt (pauseMs : UInt64) :
    (beforeNextAttempt pauseMs).ReadsOnly := by
  refine ⟨rfl, fun _ => ?_⟩
  show (if pauseMs = 0 then pure () else Program.pause pauseMs : Program Unit).ReadsOnly
  split
  · trivial
  · exact ⟨rfl, fun _ => trivial⟩

/-! ### The calls of each piece of work -/

variable {may : Call → Prop}

theorem onlyCalls_runFrom {ε γ : Type} {between : UInt32 → ε → Program Unit}
    {operation : UInt32 → Program (Except ε γ)}
    (waits : ∀ number e, (between number e).OnlyCalls may)
    (tries : ∀ number, (operation number).OnlyCalls may) (more : Nat) (number : UInt32) :
    (RetryPolicy.runFrom between operation more number).OnlyCalls may := by
  induction more generalizing number with
  | zero =>
    refine (tries number).bind fun result => ?_
    cases result <;> trivial
  | succ more ih =>
    refine (tries number).bind fun result => ?_
    cases result with
    | ok value => trivial
    | error e => exact (waits number e).bind fun _ => ih _

section Looking

variable (looking : ∀ c, Program.looks c = true → may c)
include looking

theorem onlyCalls_createStaging (making : ∀ path, may (.file (.createNew path))) (queue : Queue)
    (attempts : Nat) : (queue.createStaging attempts).OnlyCalls may := by
  induction attempts generalizing queue with
  | zero => trivial
  | succ attempts ih =>
    refine OnlyCalls.bind ⟨looking _ rfl, fun _ => trivial⟩ fun millis => ?_
    refine OnlyCalls.bind ⟨making _, fun _ => trivial⟩ fun reply => ?_
    cases reply with
    | ok done => trivial
    | error e =>
      dsimp only
      split
      · exact OnlyCalls.bind ⟨looking _ rfl, fun _ => trivial⟩ fun _ => ih _
      · trivial

theorem onlyCalls_writeSynced (appending : ∀ path content, may (.file (.append path content)))
    (path : Path) (record : Bytes) : (writeSynced path record).OnlyCalls may := by
  refine OnlyCalls.bind ⟨appending _ _, fun _ => trivial⟩ fun reply => ?_
  cases reply with
  | ok done => exact ⟨looking _ rfl, fun _ => trivial⟩
  | error e => trivial

theorem onlyCalls_tryStore (making : ∀ path, may (.file (.createNew path)))
    (appending : ∀ path content, may (.file (.append path content)))
    (moving : ∀ source target, may (.file (.rename source target))) (queue : Queue)
    (record : Except IoError Bytes) : (queue.tryStore record).OnlyCalls may := by
  have publishing : ∀ (queue : Queue) staged size, (queue.publish staged size).OnlyCalls may := by
    intro queue staged size
    unfold publish
    split
    · trivial
    · refine OnlyCalls.bind ⟨moving _ _, fun _ => trivial⟩ fun renamed => ?_
      cases renamed with
      | error e => trivial
      | ok done => exact OnlyCalls.bind ⟨looking _ rfl, fun _ => trivial⟩ fun _ => trivial
  have committing : ∀ bytes, (queue.commitRecord bytes).OnlyCalls may := by
    intro bytes
    refine (onlyCalls_createStaging looking making queue _).bind ?_
    rintro ⟨created, after⟩
    cases created with
    | error e => trivial
    | ok staged =>
      refine (onlyCalls_writeSynced looking appending staged bytes).bind fun written => ?_
      cases written with
      | error e => trivial
      | ok done => exact publishing after staged _
  unfold tryStore
  split
  · trivial
  · split
    · trivial
    · exact committing _

theorem onlyCalls_logAny (event : Option Event) : (Program.logAny event).OnlyCalls may := by
  cases event with
  | none => trivial
  | some event => exact ⟨looking _ rfl, fun _ => trivial⟩

theorem onlyCalls_setCapacity (queue : Queue) (megabytes : Int64) :
    (queue.setCapacity megabytes).OnlyCalls may :=
  (onlyCalls_logAny looking _).bind fun _ =>
    OnlyCalls.bind ⟨looking _ rfl, fun _ => trivial⟩ fun _ => trivial

section Removing

variable (removing : ∀ path, may (.file (.remove path)))
include removing

theorem onlyCalls_discard (queue : Queue) (path : Path) : (queue.discard path).OnlyCalls may := by
  have once : (removeOnce path).OnlyCalls may := by
    refine OnlyCalls.bind ⟨removing path, fun _ => trivial⟩ fun reply => ?_
    cases reply with
    | ok done => trivial
    | error e =>
      dsimp only
      split <;> trivial
  have removal : (queue.removeConsumed path).OnlyCalls may := by
    apply OnlyCalls.bind
    · apply onlyCalls_runFrom
      · exact fun _ _ => (readsOnly_beforeNextAttempt _).onlyCalls looking
      · exact fun _ => once
    · intro result
      cases result <;> trivial
  refine removal.bind fun result => ?_
  cases result with
  | ok done => trivial
  | error e => exact ⟨looking _ rfl, fun _ => trivial⟩

theorem onlyCalls_finish (queue : Queue) (inFlight : Path) :
    (queue.finish inFlight).OnlyCalls may := by
  have reading : (Stored.readRecord inFlight).ReadsOnly := by
    have read : (Program.read inFlight).ReadsOnly := ⟨rfl, fun _ => trivial⟩
    refine read.bind fun reply => ?_
    cases reply with
    | error e => trivial
    | ok content =>
      dsimp only
      split <;> trivial
  refine (reading.onlyCalls looking).bind fun decoded => ?_
  refine (onlyCalls_discard looking removing queue inFlight).bind fun _ => ?_
  exact ⟨looking _ rfl, fun _ => trivial⟩

theorem onlyCalls_tryDequeue (moving : ∀ source target, may (.file (.rename source target)))
    (queue : Queue) : queue.tryDequeue.OnlyCalls may := by
  refine ((readsOnly_take _ _).onlyCalls looking).bind fun taken => ?_
  obtain ⟨taken, candidates⟩ := taken
  cases taken with
  | error e => trivial
  | ok found =>
    cases found with
    | none => trivial
    | some claim =>
      refine OnlyCalls.bind ?_ fun _ => trivial
      refine OnlyCalls.bind ⟨looking _ rfl, fun _ => trivial⟩ fun found => ?_
      cases found with
      | error e => trivial
      | ok found =>
        refine OnlyCalls.bind ⟨moving _ _, fun _ => trivial⟩ fun renamed => ?_
        cases renamed with
        | error e => trivial
        | ok done =>
          exact (onlyCalls_finish looking removing _ _).bind fun _ => trivial

theorem onlyCalls_sweep (queue : Queue) (minAgeMs : Nat) : (queue.sweep minAgeMs).OnlyCalls may := by
  have telling : ∀ level message, (Program.log level message).OnlyCalls may :=
    fun _ _ => ⟨looking _ rfl, fun _ => trivial⟩
  have file : ∀ path now, (sweepFile path now minAgeMs).OnlyCalls may := by
    intro path now
    refine OnlyCalls.bind ⟨looking _ rfl, fun _ => trivial⟩ fun reply => ?_
    cases reply with
    | error e => exact (telling _ _).bind fun _ => trivial
    | ok found =>
      dsimp only
      split
      · trivial
      · refine OnlyCalls.bind ⟨removing _, fun _ => trivial⟩ fun removed => ?_
        cases removed <;> exact (telling _ _).bind fun _ => trivial
  have files : ∀ now names, (queue.sweepNames now minAgeMs names).OnlyCalls may := by
    intro now names
    induction names with
    | nil => trivial
    | cons name rest ih =>
      unfold sweepNames
      split
      · exact ih
      · exact (file _ now).bind fun _ => ih.bind fun _ => trivial
  refine ((readsOnly_names _ _).onlyCalls looking).bind fun result => ?_
  cases result with
  | error e => trivial
  | ok names =>
    exact OnlyCalls.bind ⟨looking _ rfl, fun _ => trivial⟩ fun now =>
      (files now names).bind fun _ => trivial

end Removing

end Looking

/-! ### Work that gives no file another name -/

theorem keepsNames_createStaging (queue : Queue) (attempts : Nat) :
    (queue.createStaging attempts).KeepsNames :=
  onlyCalls_createStaging (fun _ => Program.ne_rename_of_looks) (by simp) queue attempts

theorem keepsNames_writeSynced (path : Path) (record : Bytes) :
    (writeSynced path record).KeepsNames :=
  onlyCalls_writeSynced (fun _ => Program.ne_rename_of_looks) (by simp) path record

theorem keepsNames_finish (queue : Queue) (inFlight : Path) :
    (queue.finish inFlight).KeepsNames :=
  onlyCalls_finish (fun _ => Program.ne_rename_of_looks) (by simp) queue inFlight

theorem keepsNames_take (candidates : Candidates) (directory : Path) :
    (candidates.take directory).KeepsNames :=
  (readsOnly_take candidates directory).keepsNames

theorem keepsNames_sweep (queue : Queue) (minAgeMs : Nat) : (queue.sweep minAgeMs).KeepsNames :=
  onlyCalls_sweep (fun _ => Program.ne_rename_of_looks) (by simp) queue minAgeMs

theorem keepsNames_setCapacity (queue : Queue) (megabytes : Int64) :
    (queue.setCapacity megabytes).KeepsNames :=
  onlyCalls_setCapacity (fun _ => Program.ne_rename_of_looks) queue megabytes

theorem keepsNames_reportStored (outcome : Except QueueError Path × Queue) :
    (reportStored outcome).KeepsNames := by
  obtain ⟨result, queue⟩ := outcome
  cases result <;> exact ⟨by simp, fun _ => trivial⟩

end Queue
end DiskQueue
