/-
Module: DiskQueue.Proofs.Outcomes
Purpose: What a program brings about when it is run to its end, and what it leaves
  behind when it is cut off.
Trusted boundary: none
Main exports:
  Host.Later, Host.Faultless, Host.Steady, Host.Answers, Program.CutAt, Program.Meets,
  Program.Meets.bind, Program.Meets.file, Program.ReadsOnly, Program.ReadsOnly.meets
-/
import DiskQueue.Host

namespace DiskQueue

/-!
A program can be cut off before each of its calls and at its end, and while bytes are
put at the end of a file also after some of them. `Meets` says of a program both what
holds of the tree wherever it is cut off, and what holds of its value and the host when
it ends. It is proved call by call: a call fails without an effect, or has the effect
that the tree allows.
-/

/-- A host later in the same run: its clocks and faults are given from the start. -/
structure Host.Later (earlier later : Host) : Prop where
  directory : later.directory = earlier.directory
  clock : later.clock = earlier.clock
  fault : later.fault = earlier.fault
  calls : earlier.calls ≤ later.calls

/-- No operation fails that the tree allows. -/
def Host.Faultless (host : Host) : Prop := ∀ number op, host.fault number op = none

/-- The same, except that files may not be removable. -/
def Host.Steady (host : Host) : Prop :=
  ∀ number op, (∀ path, op ≠ .remove path) → host.fault number op = none

/-- Between two points of a run no question about an entry fails that the tree allows. -/
def Host.Answers (earlier later : Host) : Prop :=
  ∀ number path, earlier.calls ≤ number → number < later.calls →
    earlier.fault number (.stat path) = none

namespace Host

variable {host mid after : Host}

theorem Later.refl (host : Host) : host.Later host := ⟨rfl, rfl, rfl, Nat.le_refl _⟩

theorem Later.trans (h₁ : host.Later mid) (h₂ : mid.Later after) : host.Later after where
  directory := h₂.directory.trans h₁.directory
  clock := h₂.clock.trans h₁.clock
  fault := h₂.fault.trans h₁.fault
  calls := Nat.le_trans h₁.calls h₂.calls

theorem Later.faultless (h : host.Later after) (faultless : host.Faultless) : after.Faultless := by
  intro number op
  rw [h.fault]
  exact faultless number op

theorem Faultless.steady (h : host.Faultless) : host.Steady := fun number op _ => h number op

theorem Later.steady (h : host.Later after) (steady : host.Steady) : after.Steady := by
  intro number op other
  rw [h.fault]
  exact steady number op other

theorem Faultless.answers (h : host.Faultless) (after : Host) : host.Answers after :=
  fun number path _ _ => h number (.stat path)

/-- Questions are answered in every part of a run in which they all are. -/
theorem Answers.within {last : Host} (h : host.Answers last) (first : host.Later mid)
    (rest : after.Later last) : mid.Answers after := by
  intro number path since before
  rw [first.fault]
  exact h number path (Nat.le_trans first.calls since) (Nat.lt_of_lt_of_le before rest.calls)

theorem faultless_quiet (tree : FileTree) (directory : Key) (time : Int) (tally : FailureTally) :
    (quiet tree directory time tally).Faultless :=
  fun _ _ => rfl

theorem later_loggedAny (host : Host) (event : Option Event) :
    host.Later (host.loggedAny event) ∧ (host.loggedAny event).tree = host.tree ∧
      (host.loggedAny event).calls = host.calls := by
  cases event <;> exact ⟨⟨rfl, rfl, rfl, Nat.le_refl _⟩, rfl, rfl⟩

theorem later_operate (host : Host) (op : FileOp) :
    host.Later (host.operate op).2 ∧ (host.operate op).2.calls = host.calls + 1 := by
  unfold operate
  split <;> exact ⟨⟨rfl, rfl, rfl, Nat.le_succ _⟩, rfl⟩

theorem later_tallied (host : Host) (report : Report) :
    host.Later (host.tallied report) ∧ (host.tallied report).tree = host.tree ∧
      (host.tallied report).calls = host.calls := by
  unfold tallied
  obtain ⟨later, tree, calls⟩ := later_loggedAny
    { host with
      tally := (host.tally.record (host.instant host.calls) report).1,
      reports := host.reports ++ [report] }
    (host.tally.record (host.instant host.calls) report).2
  exact ⟨⟨later.directory, later.clock, later.fault, later.calls⟩, tree, calls⟩

theorem later_answer (host : Host) (c : Call) :
    host.Later (host.answer c).2 ∧ (host.answer c).2.calls = host.calls + 1 := by
  cases c with
  | file op => exact later_operate host op
  | report what =>
    obtain ⟨later, -, calls⟩ := later_tallied host what
    refine ⟨⟨later.directory, later.clock, later.fault, ?_⟩, ?_⟩
    · exact Nat.le_trans later.calls (Nat.le_succ _)
    · exact congrArg (· + 1) calls
  | now | pause | log => exact ⟨⟨rfl, rfl, rfl, Nat.le_succ _⟩, rfl⟩

end Host

namespace FileTree

variable {tree : FileTree} {current : Key} {now : Int}

/-- An operation that fails leaves the tree as it is. -/
theorem perform_error {op : FileOp} {e : IoError}
    (h : (tree.perform current now op).1 = .error e) : (tree.perform current now op).2 = tree := by
  have unchanged : ∀ {result : Except IoError FileTree},
      (changed tree result).1 = .error e → (changed tree result).2 = tree := by
    intro result failed
    cases result with
    | error _ => rfl
    | ok _ => cases failed
  cases op <;> first | rfl | exact unchanged h

theorem changed_eq_ok {result : Except IoError FileTree} {after : FileTree}
    (h : changed tree result = (.ok (), after)) : result = .ok after := by
  cases result with
  | error _ => cases h
  | ok _ =>
    cases h
    rfl

end FileTree

namespace Program

variable {α β : Type}

/-- The hosts at which a program can be cut off. -/
inductive CutAt : Program α → Host → Host → Prop
  | here (p : Program α) (host : Host) : CutAt p host host
  | partly (path : Path) (content : Bytes) (count : Nat)
      (next : Except IoError Unit → Program α) (host : Host) :
      CutAt (.call (.file (.append path content)) next) host
        (host.operate (.append path (content.take count))).2
  | later (c : Call) (next : c.Reply → Program α) (host after : Host) :
      CutAt (next (host.answer c).1) (host.answer c).2 after → CutAt (.call c next) host after

theorem run_eq {p : Program α} {host : Host} {value : α} (h : (p.run host).1 = value) :
    p.run host = (value, (p.run host).2) := by
  rw [← h]

theorem later_run (p : Program α) (host : Host) : host.Later (p.run host).2 := by
  induction p generalizing host with
  | done value => exact Host.Later.refl host
  | call c next ih => exact (Host.later_answer host c).1.trans (ih _ _)

/-- After so many calls a program can be cut off. -/
theorem cutAt_runCalls (count : Nat) (p : Program α) (host : Host) :
    p.CutAt host (p.runCalls count host) := by
  induction count generalizing p host with
  | zero => cases p <;> exact .here _ host
  | succ count ih =>
    cases p with
    | done value => exact .here _ host
    | call c next => exact .later c next host _ (ih _ _)

theorem CutAt.later_host {p : Program α} {host after : Host} (h : p.CutAt host after) :
    host.Later after := by
  induction h with
  | here p host => exact Host.Later.refl host
  | partly path content count next host => exact (Host.later_operate host _).1
  | later c next host after _ ih => exact (Host.later_answer host c).1.trans ih

/-- A program after another one starts where that one has ended. -/
theorem run_andThen {β : Type} (p : Program α) (f : α → Program β) (host : Host) :
    (p >>= f).run host = (f (p.run host).1).run (p.run host).2 :=
  run_bind p f host

/-- A program that goes on after another one is cut off in the first or in the second. -/
theorem CutAt.of_bind {p : Program α} {f : α → Program β} {host after : Host}
    (h : (p.bind f).CutAt host after) :
    p.CutAt host after ∨ (f (p.run host).1).CutAt (p.run host).2 after := by
  induction p generalizing host with
  | done value => exact .inr h
  | call c next ih =>
    cases h with
    | here => exact .inl (.here _ _)
    | partly path content count => exact .inl (.partly path content count next host)
    | later _ _ _ _ rest =>
      rcases ih _ rest with first | second
      · exact .inl (.later c next host after first)
      · exact .inr second

/-- What holds of the tree wherever a program is cut off, and of its value and the host
when it ends. -/
structure Meets (cut : FileTree → Prop) (post : α → Host → Prop) (p : Program α)
    (host : Host) : Prop where
  cut : ∀ {after}, p.CutAt host after → cut after.tree
  run : post (p.run host).1 (p.run host).2

variable {cut : FileTree → Prop} {post : α → Host → Prop} {host : Host}

theorem Meets.done {value : α} (here : cut host.tree) (h : post value host) :
    Meets cut post (pure value) host := by
  refine ⟨?_, h⟩
  intro after stopped
  cases stopped
  exact here

theorem Meets.mono {cut' : FileTree → Prop} {post' : α → Host → Prop} {p : Program α}
    (h : Meets cut post p host) (stops : ∀ tree, cut tree → cut' tree)
    (ends : ∀ value after, host.Later after → post value after → post' value after) :
    Meets cut' post' p host :=
  ⟨fun stopped => stops _ (h.cut stopped), ends _ _ (later_run p host) h.run⟩

theorem cutAt_run (p : Program α) (host : Host) : p.CutAt host (p.run host).2 := by
  induction p generalizing host with
  | done value => exact .here _ _
  | call c next ih => exact .later c next host _ (ih _ _)

/-- What holds after a program and what the next one makes of it. -/
theorem Meets.bind {mid : α → Host → Prop} {post : β → Host → Prop} {p : Program α}
    {f : α → Program β} (h : Meets cut mid p host)
    (rest : ∀ value after, host.Later after → cut after.tree → mid value after →
      Meets cut post (f value) after) :
    Meets cut post (p >>= f) host := by
  have second := rest _ _ (later_run p host) (h.cut (cutAt_run p host)) h.run
  constructor
  · intro after stopped
    rcases CutAt.of_bind stopped with first | last
    · exact h.cut first
    · exact second.cut last
  · rw [run_andThen]
    exact second.run

/-! ### Calls -/

theorem Meets.call {c : Call} {next : c.Reply → Program α} (here : cut host.tree)
    (partly : ∀ path content count, c = .file (.append path content) →
      cut (host.operate (.append path (content.take count))).2.tree)
    (rest : Meets cut post (next (host.answer c).1) (host.answer c).2) :
    Meets cut post (.call c next) host := by
  refine ⟨?_, rest.run⟩
  intro after stopped
  cases stopped with
  | here => exact here
  | partly path content count => exact partly path content count rfl
  | later _ _ _ _ onward => exact rest.cut onward

/-- A call that asks for no operation on files leaves the files as they are. -/
theorem tree_answer_of_noFile {c : Call} (noFile : ∀ op, c ≠ .file op) (host : Host) :
    (host.answer c).2.tree = host.tree := by
  cases c with
  | file op => exact absurd rfl (noFile op)
  | report what => exact (Host.later_tallied host what).2.1
  | now | pause | log => rfl

theorem Meets.aside {c : Call} {next : c.Reply → Program α} (noFile : ∀ op, c ≠ .file op)
    (here : cut host.tree)
    (rest : ∀ after, host.Later after → after.calls = host.calls + 1 → after.tree = host.tree →
      Meets cut post (next (host.answer c).1) after) :
    Meets cut post (.call c next) host := by
  refine Meets.call here (fun _ _ _ file => absurd file (noFile _)) ?_
  obtain ⟨later, calls⟩ := Host.later_answer host c
  exact rest _ later calls (tree_answer_of_noFile noFile host)

section Aside

variable {f : Unit → Program α} (here : cut host.tree)
  (rest : ∀ after, host.Later after → after.tree = host.tree → Meets cut post (f ()) after)
include here rest

theorem Meets.log (level : Level) (message : String) :
    Meets cut post (log level message >>= f) host :=
  Meets.aside (by simp) here fun after later _ same => rest after later same

theorem Meets.logAny (event : Option Event) : Meets cut post (logAny event >>= f) host := by
  cases event with
  | none => exact rest host (Host.Later.refl host) rfl
  | some event => exact Meets.aside (by simp) here fun after later _ same => rest after later same

theorem Meets.report (what : Report) : Meets cut post (report what >>= f) host :=
  Meets.aside (by simp) here fun after later _ same => rest after later same

theorem Meets.pause (ms : UInt64) : Meets cut post (pause ms >>= f) host :=
  Meets.aside (by simp) here fun after later _ same => rest after later same

end Aside

/-- Work that ends with a word to the log leaves the files as they are then. -/
theorem Meets.logged {value : α} {level : Level} {message : String} (here : cut host.tree)
    (ends : ∀ after, host.Later after → after.tree = host.tree → post value after) :
    Meets cut post (Program.log level message >>= fun _ => pure value) host := by
  apply Meets.log here
  intro after later same
  exact Meets.done (by rwa [same]) (ends after later same)

theorem Meets.now {f : Int → Program α} (here : cut host.tree)
    (rest : ∀ after, host.Later after → after.calls = host.calls + 1 → after.tree = host.tree →
      Meets cut post (f (host.clock host.calls)) after) :
    Meets cut post (now >>= f) host :=
  Meets.aside (by simp) here rest

/-- An operation fails without an effect, or has the effect that the tree allows. If it is
not because of a fault, the tree itself is why it fails. -/
theorem Meets.file {op : FileOp} {f : Except IoError op.Result → Program α}
    (here : cut host.tree)
    (partly : ∀ path content count tree, op = .append path content →
      host.tree.append host.directory (host.clock host.calls) path (content.take count)
        = .ok tree → cut tree)
    (failed : ∀ e after, host.Later after → after.calls = host.calls + 1 →
      after.tree = host.tree →
      (host.fault host.calls op = none →
        (host.tree.perform host.directory (host.clock host.calls) op).1 = .error e) →
      Meets cut post (f (.error e)) after)
    (succeeded : ∀ result after, host.Later after →
      host.tree.perform host.directory (host.clock host.calls) op = (.ok result, after.tree) →
      Meets cut post (f (.ok result)) after) :
    Meets cut post (file op >>= f) host := by
  apply Meets.call here
  · rintro path content count ⟨⟩
    unfold Host.operate
    split
    · exact here
    · cases appended : host.tree.append host.directory (host.clock host.calls) path
          (content.take count) with
      | error e => simpa [FileTree.perform, FileTree.changed, appended, Host.counted] using here
      | ok tree =>
        simpa [FileTree.perform, FileTree.changed, appended, Host.counted] using
          partly path content count tree rfl appended
  · obtain ⟨later, calls⟩ := Host.later_operate host op
    show Meets cut post (f (host.operate op).1) (host.operate op).2
    cases fault : host.fault host.calls op with
    | some e =>
      have struck : host.operate op = (.error e, host.counted) := by
        rw [Host.operate, fault]
      rw [struck] at later calls ⊢
      exact failed e _ later calls rfl fun clear => by rw [clear] at fault; cases fault
    | none =>
      have allowed : host.operate op
          = ((host.tree.perform host.directory (host.clock host.calls) op).1,
            { host with
              tree := (host.tree.perform host.directory (host.clock host.calls) op).2 }.counted) := by
        rw [Host.operate, fault]
      rw [allowed] at later calls ⊢
      cases reply : (host.tree.perform host.directory (host.clock host.calls) op).1 with
      | error e =>
        rw [reply] at later calls
        exact failed e _ later calls (FileTree.perform_error reply) fun _ => reply
      | ok result =>
        rw [reply] at later
        exact succeeded result _ later (Prod.ext reply rfl)

/-! ### Programs that only look -/

/-- Whether a call leaves the files as they are, whatever the reply, and reports nothing. -/
def looks : Call → Bool
  | .file (.list _) | .file (.stat _) | .file (.sync _) | .file (.read _) => true
  | .file _ => false
  | .report _ => false
  | _ => true

/-- A program whose calls leave the files as they are and report nothing. -/
def ReadsOnly : Program α → Prop
  | .done _ => True
  | .call c next => looks c = true ∧ ∀ reply, ReadsOnly (next reply)

theorem ReadsOnly.bind {p : Program α} {f : α → Program β} (first : p.ReadsOnly)
    (rest : ∀ value, (f value).ReadsOnly) : (p >>= f).ReadsOnly := by
  induction p with
  | done value => exact rest value
  | call c next ih => exact ⟨first.1, fun reply => ih reply (first.2 reply)⟩

theorem tree_answer_of_looks {c : Call} (h : looks c = true) (host : Host) :
    (host.answer c).2.tree = host.tree := by
  cases c with
  | file op =>
    show (host.operate op).2.tree = host.tree
    unfold Host.operate
    split
    · rfl
    · cases op <;> first | rfl | cases h
  | report what => cases h
  | now | pause | log => rfl

/-- A program that only looks leaves the files as they are, wherever it is cut off. -/
theorem ReadsOnly.meets {p : Program α} (h : p.ReadsOnly) (host : Host) :
    Meets (· = host.tree) (fun _ after => after.tree = host.tree) p host := by
  induction p generalizing host with
  | done value => exact Meets.done rfl rfl
  | call c next ih =>
    have same := tree_answer_of_looks h.1 host
    have rest := ih (host.answer c).1 (h.2 _) (host.answer c).2
    rw [same] at rest
    refine Meets.call rfl ?_ rest
    rintro path content count ⟨⟩
    cases h.1

end Program
end DiskQueue
