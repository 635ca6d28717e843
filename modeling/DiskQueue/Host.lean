/-
Module: DiskQueue.Host
Purpose: What programs run on.
Trusted boundary: none
Main exports:
  Host, Host.answer, Program.run, Program.runCalls
-/
import DiskQueue.Program

namespace DiskQueue

/-!
A host has files, clocks, a log and a tally of what was stored and lost. What
its clocks show, and which operations on files fail although the tree would allow
them, is given for every call by its number, so nothing is assumed about either.
An operation that fails has no effect.
-/

/-- Files, clocks, faults, and what has been reported, the oldest first. -/
structure Host where
  tree : FileTree
  directory : Key
  clock : Nat → Int
  instant : Nat → Nat
  fault : Nat → FileOp → Option IoError
  calls : Nat
  tally : FailureTally
  reports : List Report
  events : List Event

namespace Host

/-- A host whose clocks stand still and whose files never fail. -/
def quiet (tree : FileTree) (directory : Key) (time : Int) (tally : FailureTally) : Host where
  tree := tree
  directory := directory
  clock := fun _ => time
  instant := fun _ => 0
  fault := fun _ _ => none
  calls := 0
  tally := tally
  reports := []
  events := []

/-- The host after one more call. -/
def counted (host : Host) : Host := { host with calls := host.calls + 1 }

/-- The host with an event in its log. -/
def logged (host : Host) (event : Event) : Host := { host with events := host.events ++ [event] }

/-- The host with an event in its log, if there is one. -/
def loggedAny (host : Host) : Option Event → Host
  | none => host
  | some event => host.logged event

/-- The host with a report in its tally. -/
def tallied (host : Host) (report : Report) : Host :=
  let counted := host.tally.record (host.instant host.calls) report
  { host with tally := counted.1, reports := host.reports ++ [report] }.loggedAny counted.2

/-- Carries out an operation on files, unless a fault strikes. -/
def operate (host : Host) (op : FileOp) : Except IoError op.Result × Host :=
  match host.fault host.calls op with
  | some e => (.error e, host.counted)
  | none =>
    let result := host.tree.perform host.directory (host.clock host.calls) op
    (result.1, { host with tree := result.2 }.counted)

/-- Replies to a call. -/
def answer (host : Host) : (c : Call) → c.Reply × Host
  | .file op => host.operate op
  | .now => (host.clock host.calls, host.counted)
  | .pause _ => ((), host.counted)
  | .log event => ((), (host.logged event).counted)
  | .report report => ((), (host.tallied report).counted)

end Host

namespace Program

/-- Runs a program to its end. -/
def run {α : Type} : Program α → Host → α × Host
  | .done value, host => (value, host)
  | .call c next, host =>
    let reply := host.answer c
    run (next reply.1) reply.2

/-- Runs a program for so many calls, and gives the host as it is then. -/
def runCalls {α : Type} : Nat → Program α → Host → Host
  | _, .done _, host => host
  | 0, .call _ _, host => host
  | count + 1, .call c next, host =>
    let reply := host.answer c
    runCalls count (next reply.1) reply.2

/-- A program that is done leaves the host as it is. -/
@[simp] theorem run_done {α : Type} (value : α) (host : Host) :
    (Program.done value).run host = (value, host) := rfl

/-- Two programs after another run one after the other. -/
theorem run_bind {α β : Type} (p : Program α) (f : α → Program β) (host : Host) :
    (p.bind f).run host = (f (p.run host).1).run (p.run host).2 := by
  induction p generalizing host with
  | done value => rfl
  | call c next ih => exact ih (host.answer c).1 (host.answer c).2

end Program
end DiskQueue
