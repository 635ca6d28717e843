/-
Module: DiskQueue.Proofs.Attempts
Purpose: Which operations on files a run attempts, and which of them fail.
Trusted boundary: none
Main exports:
  Attempt, Program.attempts, Program.attempts_bind, Program.EndsWith,
  Program.EndsWith.bind, Program.EndsWith.file, Program.EndsWith.anyFile
-/
import DiskQueue.Proofs.Outcomes

namespace DiskQueue

/-!
What a program answers may hide which of its operations have failed: a removal that fails
is only logged, and one error may stand for any of several operations. The attempts of a
run tell them all. `EndsWith` speaks of them together with the value and the host at the
end, and takes what a single operation does from `Meets`.
-/

/-- An operation on files that a run has asked for, and why it failed if it did. -/
structure Attempt where
  op : FileOp
  failure : Option IoError
deriving Repr, DecidableEq

namespace Attempt

/-- Why there is no result. -/
def failure? {α : Type} : Except IoError α → Option IoError
  | .ok _ => none
  | .error e => some e

/-- An operation and what it was answered. -/
def of (op : FileOp) (reply : Except IoError op.Result) : Attempt := ⟨op, failure? reply⟩

end Attempt

/-- What a call attempts on files: one operation, or nothing. -/
def Call.attempts : (c : Call) → c.Reply → List Attempt
  | .file op, reply => [.of op reply]
  | .now, _ => []
  | .pause _, _ => []
  | .log _, _ => []
  | .report _, _ => []

namespace Program

variable {α β : Type}

/-- What a run attempts on files, in order. -/
def attempts : Program α → Host → List Attempt
  | .done _, _ => []
  | .call c next, host =>
    c.attempts (host.answer c).1 ++ attempts (next (host.answer c).1) (host.answer c).2

/-- A program that goes on after another one attempts what both attempt. -/
theorem attempts_bind (p : Program α) (f : α → Program β) (host : Host) :
    (p >>= f).attempts host
      = p.attempts host ++ (f (p.run host).1).attempts (p.run host).2 := by
  induction p generalizing host with
  | done value => rfl
  | call c next ih =>
    calc c.attempts (host.answer c).1
          ++ (next (host.answer c).1 >>= f).attempts (host.answer c).2
        = c.attempts (host.answer c).1 ++ ((next (host.answer c).1).attempts (host.answer c).2
            ++ (f ((Program.call c next).run host).1).attempts
              ((Program.call c next).run host).2) := by rw [ih]; rfl
      _ = _ := (List.append_assoc _ _ _).symm

/-- What holds of the attempts of a run, of its value and of the host when it ends. -/
def EndsWith (post : List Attempt → α → Host → Prop) (p : Program α) (host : Host) : Prop :=
  post (p.attempts host) (p.run host).1 (p.run host).2

variable {post : List Attempt → α → Host → Prop} {host : Host}

theorem EndsWith.done {value : α} (h : post [] value host) : EndsWith post (pure value) host := h

theorem EndsWith.mono {post' : List Attempt → α → Host → Prop} {p : Program α}
    (h : EndsWith post p host)
    (ends : ∀ made value after, host.Later after → post made value after → post' made value after) :
    EndsWith post' p host :=
  ends _ _ _ (later_run p host) h

/-- What is known of the value and the host holds beside what is known of the attempts. -/
theorem EndsWith.and {cut : FileTree → Prop} {post' : α → Host → Prop} {p : Program α}
    (h : EndsWith post p host) (meets : Meets cut post' p host) :
    EndsWith (fun made value after => post made value after ∧ post' value after) p host :=
  ⟨h, meets.run⟩

/-- What a program attempts stands before what the next one attempts. -/
theorem EndsWith.bind {mid : List Attempt → β → Host → Prop} {p : Program β} {f : β → Program α}
    (h : EndsWith mid p host)
    (rest : ∀ first value after, host.Later after → mid first value after →
      EndsWith (fun last => post (first ++ last)) (f value) after) :
    EndsWith post (p >>= f) host := by
  have second := rest _ _ _ (later_run p host) h
  unfold EndsWith at second ⊢
  rw [attempts_bind, run_andThen]
  exact second

/-- What only makes something of the value of a program attempts nothing more. -/
theorem EndsWith.map {mid : List Attempt → β → Host → Prop} {p : Program β} {g : β → α}
    (h : EndsWith mid p host)
    (ends : ∀ made value after, host.Later after → mid made value after →
      post made (g value) after) :
    EndsWith post (p >>= fun value => pure (g value)) host := by
  apply h.bind
  intro made value after later met
  apply EndsWith.done
  rw [List.append_nil]
  exact ends made value after later met

/-- A single operation does what is known of it, and is the first attempt. -/
theorem EndsWith.file {op : FileOp} {mid : Except IoError op.Result → Host → Prop}
    {f : Except IoError op.Result → Program α} (h : Meets (fun _ => True) mid (file op) host)
    (rest : ∀ reply after, host.Later after → after.calls = host.calls + 1 → mid reply after →
      EndsWith (fun last => post (.of op reply :: last)) (f reply) after) :
    EndsWith post (file op >>= f) host := by
  have first : EndsWith (fun made reply after => made = [.of op reply] ∧
      after.calls = host.calls + 1 ∧ mid reply after) (Program.file op) host :=
    ⟨rfl, (Host.later_operate host op).2, h.run⟩
  apply first.bind
  rintro _ reply after later ⟨rfl, calls, met⟩
  exact rest reply after later calls met

/-- What follows a single operation holds whatever the operation does. -/
theorem EndsWith.anyFile {op : FileOp} {f : Except IoError op.Result → Program α}
    (rest : ∀ reply after, EndsWith (fun last => post (.of op reply :: last)) (f reply) after) :
    EndsWith post (Program.file op >>= f) host := by
  have unknown : Meets (fun _ => True) (fun _ _ => True) (Program.file op) host :=
    ⟨fun _ => trivial, trivial⟩
  exact EndsWith.file unknown fun reply after _ _ _ => rest reply after

/-- A call that asks for no operation on files attempts nothing. -/
theorem EndsWith.aside {c : Call} {next : c.Reply → Program α} (noFile : ∀ op, c ≠ .file op)
    (rest : ∀ after, host.Later after → after.calls = host.calls + 1 → after.tree = host.tree →
      EndsWith post (next (host.answer c).1) after) :
    EndsWith post (.call c next) host := by
  have nothing : c.attempts (host.answer c).1 = [] := by
    cases c with
    | file op => exact absurd rfl (noFile op)
    | now | pause | log | report => rfl
  obtain ⟨later, calls⟩ := Host.later_answer host c
  have onward := rest _ later calls (tree_answer_of_noFile noFile host)
  unfold EndsWith at onward ⊢
  rw [attempts, nothing]
  exact onward

theorem EndsWith.log {f : Unit → Program α} (level : Level) (message : String)
    (rest : ∀ after, host.Later after → after.calls = host.calls + 1 → after.tree = host.tree →
      EndsWith post (f ()) after) :
    EndsWith post (log level message >>= f) host :=
  EndsWith.aside (by simp) rest

theorem EndsWith.now {f : Int → Program α}
    (rest : ∀ after, host.Later after → after.calls = host.calls + 1 → after.tree = host.tree →
      EndsWith post (f (host.clock host.calls)) after) :
    EndsWith post (now >>= f) host :=
  EndsWith.aside (by simp) rest

end Program
end DiskQueue
