/-
Module: DiskQueue.Proofs.Reporting
Purpose: What is answered by yes or no is what would have been told in full, and is reported
  once; nothing else is reported.
Trusted boundary: none
Main exports:
  Program.Silent, Host.received, Host.told, Exchange, Queue.Agrees, Fleet.Moment,
  Fleet.passAll, Fleet.exchanges, Fleet.ReportedOnce, Fleet.reported_once
-/
import DiskQueue.Proofs.Announcements
import DiskQueue.Proofs.OutputDirectory

namespace DiskQueue

/-!
A queue can be asked in two ways to store and to take: one tells why it fails, the other says
no more than that. The second way is the first one with something behind it, a report or a
line in the log, so both leave the same queue and the same files.

That a piece of work reports nothing is read off its calls, whatever the replies are. So it
holds for every fault and every content of the files, also where a record is taken that cannot
be decoded.
-/

variable {α : Type} {host after : Host}

/-! ### What has been reported -/

namespace Host

/-- What has been reported to a host, and what it has counted of that. -/
def received (host : Host) : List Report × FailureTally := (host.reports, host.tally)

/-- What has been reported and counted once some more reports have come in, each at its
instant. -/
def told (host : Host) (reports : List (Nat × Report)) : List Report × FailureTally :=
  (host.reports ++ reports.map Prod.snd, host.tally.counted reports)

theorem told_nil (host : Host) : host.told [] = host.received := by
  rw [told, List.map_nil, List.append_nil]
  rfl

/-- Reports come in after others. -/
theorem told_append {reports : List (Nat × Report)} (h : after.received = host.told reports)
    (more : List (Nat × Report)) : after.told more = host.told (reports ++ more) := by
  obtain ⟨listed, counted⟩ := Prod.mk.inj h
  rw [told, listed, counted, told, List.map_append, List.append_assoc, FailureTally.counted,
    FailureTally.counted, FailureTally.counted, List.foldl_append]

theorem received_answer {c : Call} (silent : ∀ what, c ≠ .report what) (host : Host) :
    (host.answer c).2.received = host.received := by
  cases c with
  | file op =>
    show (host.operate op).2.received = host.received
    unfold operate
    split <;> rfl
  | report what => exact absurd rfl (silent what)
  | now | pause | log => rfl

theorem received_tallied (host : Host) (what : Report) :
    (host.tallied what).counted.received = host.told [(host.instant host.calls, what)] := by
  unfold tallied
  dsimp only
  cases announced : (host.tally.record (host.instant host.calls) what).2 <;> rfl

end Host

/-! ### Work that reports nothing -/

namespace Program

/-- A program that reports nothing, whatever the replies are. -/
def Silent : Program α → Prop := OnlyCalls fun c => ∀ what, c ≠ .report what

variable {p : Program α}

theorem Silent.received (h : p.Silent) (host : Host) :
    (p.run host).2.received = host.received := by
  induction p generalizing host with
  | done value => rfl
  | call c next ih => exact (ih _ (h.2 _) _).trans (Host.received_answer h.1 host)

/-- A look reports nothing. -/
theorem ne_report_of_looks {c : Call} (looking : looks c = true) (what : Report) :
    c ≠ .report what := by
  rintro rfl
  cases looking

theorem ReadsOnly.silent (h : p.ReadsOnly) : p.Silent := h.onlyCalls fun _ => ne_report_of_looks

theorem silent_file (op : FileOp) : (file op).Silent := ⟨by simp, fun _ => trivial⟩

theorem silent_log (level : Level) (message : String) : (log level message).Silent :=
  ⟨by simp, fun _ => trivial⟩

theorem silent_ensureDirectories (path : Path) : (ensureDirectories path).Silent := by
  have making : ∀ c, MakesDirectories c → ∀ what, c ≠ .report what := by
    rintro c (looking | ⟨path, rfl⟩) what
    · exact ne_report_of_looks looking what
    · simp
  exact (onlyCalls_ensureDirectories path).mono making

end Program

open Program (OnlyCalls Silent ReadsOnly ne_report_of_looks)

namespace Queue

variable {queue : Queue}

theorem silent_checkWritable (directory : Path) (token : ProcessToken) :
    (checkWritable directory token).Silent := by
  refine OnlyCalls.bind (Program.silent_file _) fun made => ?_
  cases made with
  | error e => exact OnlyCalls.bind (Program.silent_log _ _) fun _ => trivial
  | ok done =>
    refine OnlyCalls.bind (Program.silent_file _) fun removed => ?_
    cases removed with
    | error e => exact OnlyCalls.bind (Program.silent_log _ _) fun _ => trivial
    | ok done => trivial

theorem silent_checkDirectory (directory : Path) (token : ProcessToken) :
    (checkDirectory directory token).Silent := by
  refine OnlyCalls.bind (Program.readsOnly_isDirectory directory).silent fun isOne => ?_
  cases isOne with
  | false => trivial
  | true =>
    refine OnlyCalls.bind (Program.silent_file _) fun listed => ?_
    cases listed with
    | error e => trivial
    | ok entries => exact silent_checkWritable directory token

theorem silent_ensureAccessible (directory : Path) (token : ProcessToken) :
    (ensureAccessible directory token).Silent := by
  refine OnlyCalls.bind (Program.silent_ensureDirectories directory) fun made => ?_
  cases made with
  | error e => exact OnlyCalls.bind (Program.silent_log _ _) fun _ => trivial
  | ok done => exact silent_checkDirectory directory token

theorem silent_openWith (options : Options) (fallback : Path) (token : ProcessToken) :
    (openWith options fallback token).Silent := by
  refine OnlyCalls.bind (silent_ensureAccessible _ token) fun accessible => ?_
  cases accessible with
  | error e => trivial
  | ok done =>
    refine OnlyCalls.bind (onlyCalls_logAny (fun _ => ne_report_of_looks) _) fun _ => ?_
    refine OnlyCalls.bind (readsOnly_totalSize _ _).silent fun measured => ?_
    cases measured with
    | error e => trivial
    | ok size => exact OnlyCalls.bind (Program.silent_log _ _) fun _ => trivial

theorem silent_tryEnqueue (payload : Payload) (queue : Queue) :
    (payload.tryEnqueue queue).Silent := by
  rw [payload.tryEnqueue_eq]
  exact onlyCalls_tryStore (fun _ => ne_report_of_looks) (by simp) (by simp) (by simp) queue _

theorem silent_tryDequeue (queue : Queue) : queue.tryDequeue.Silent :=
  onlyCalls_tryDequeue (fun _ => ne_report_of_looks) (by simp) (by simp) queue

theorem silent_dequeue (queue : Queue) : queue.dequeue.Silent := by
  refine OnlyCalls.bind (silent_tryDequeue queue) ?_
  rintro ⟨result, left⟩
  cases result with
  | ok found => trivial
  | error e => exact OnlyCalls.bind (Program.silent_log _ _) fun _ => trivial

end Queue

/-- Only a request that is answered by yes or no reports anything. -/
theorem Request.silent {request : Request} (unreported : ∀ payload, request ≠ .store payload)
    (queue : Queue) : (request.program queue).Silent := by
  cases request with
  | store payload => exact absurd rfl (unreported payload)
  | tryStore payload => exact OnlyCalls.bind (Queue.silent_tryEnqueue payload queue) fun _ => trivial
  | tryTake => exact OnlyCalls.bind (Queue.silent_tryDequeue queue) fun _ => trivial
  | take => exact OnlyCalls.bind (Queue.silent_dequeue queue) fun _ => trivial
  | setCapacity megabytes =>
    exact OnlyCalls.bind (Queue.onlyCalls_setCapacity (fun _ => ne_report_of_looks) queue megabytes)
      fun _ => trivial
  | status => exact OnlyCalls.bind (Queue.readsOnly_status queue).silent fun _ => trivial
  | sweep minAgeMs =>
    exact OnlyCalls.bind
      (Queue.onlyCalls_sweep (fun _ => ne_report_of_looks) (by simp) queue minAgeMs) fun _ => trivial

/-! ### Saying whether, and telling why not -/

/-- The report on an attempt that a host has made just now. -/
def Payload.due (payload : Payload) (queue : Queue) (host : Host) : Nat × Report :=
  let tried := (payload.tryEnqueue queue).run host
  (tried.2.instant tried.2.calls, Report.ofAttempt tried.1.1)

namespace Queue

/-- Whichever way a queue is asked, it does the same, and one report tells of an attempt
to store that is answered by yes or no. -/
structure Agrees (queue : Queue) (host : Host) : Prop where
  stored : ∀ payload : Payload,
    let tried := (payload.tryEnqueue queue).run host
    let stored := (payload.enqueue queue).run host
    (stored.1.1 = true ↔ ∃ path, tried.1.1 = .ok path) ∧ stored.1.2 = tried.1.2 ∧
      stored.2.tree = tried.2.tree ∧ tried.2.received = host.received ∧
      stored.2.received = host.told [payload.due queue host]
  taken :
    let tried := queue.tryDequeue.run host
    let taken := queue.dequeue.run host
    (∀ transmission, taken.1.1 = some transmission ↔ tried.1.1 = .ok (some transmission)) ∧
      taken.1.2 = tried.1.2 ∧ taken.2.tree = tried.2.tree ∧
      tried.2.received = host.received ∧ taken.2.received = host.received

/-- Taking without a reason is an attempt, with a line in the log if it fails. -/
theorem run_dequeue (queue : Queue) (host : Host) :
    (queue.dequeue.run host).1 =
        ((queue.tryDequeue.run host).1.1.toOption.join, (queue.tryDequeue.run host).1.2) ∧
      (queue.dequeue.run host).2.tree = (queue.tryDequeue.run host).2.tree := by
  rw [dequeue, Program.run_andThen]
  obtain ⟨⟨result, left⟩, after⟩ := queue.tryDequeue.run host
  cases result <;> exact ⟨rfl, rfl⟩

theorem received_enqueue (payload : Payload) (queue : Queue) (host : Host) :
    ((payload.enqueue queue).run host).2.received = host.told [payload.due queue host] := by
  have untold := (silent_tryEnqueue payload queue).received host
  rw [← host.told_nil] at untold
  rw [run_enqueue, Host.received_tallied, Host.told_append untold]
  rfl

theorem agrees (queue : Queue) (host : Host) : Agrees queue host where
  stored := by
    intro payload tried stored
    have run : stored = _ := run_enqueue payload queue host
    refine ⟨?_, ?_, ?_, (silent_tryEnqueue payload queue).received host,
      received_enqueue payload queue host⟩
    · rw [run]
      show tried.1.1.toOption.isSome = true ↔ _
      cases tried.1.1 <;> simp [Except.toOption]
    · rw [run]
    · rw [run]
      exact (Host.later_tallied _ _).2.1
  taken := by
    intro tried taken
    obtain ⟨answer, tree⟩ := run_dequeue queue host
    refine ⟨?_, congrArg Prod.snd answer, tree, (silent_tryDequeue queue).received host,
      (silent_dequeue queue).received host⟩
    intro transmission
    rw [show taken.1.1 = _ from congrArg Prod.fst answer]
    cases tried.1.1 <;> simp [Except.toOption]

end Queue

/-! ### Runs -/

/-- A queue is asked for something, on the host as it is then. -/
structure Exchange where
  queue : Queue
  host : Host
  request : Request

namespace Exchange

/-- What the queue answers, and what it and the host are afterwards. -/
def outcome (exchange : Exchange) : (Answer × Queue) × Host :=
  (exchange.request.program exchange.queue).run exchange.host

/-- Whether a payload was stored, if the answer is yes or no. -/
def whether? (exchange : Exchange) : Option Bool :=
  match exchange.outcome.1.1 with
  | .stored whether => some whether
  | _ => none

/-- The report that is due. -/
def due? (exchange : Exchange) : Option (Nat × Report) :=
  match exchange.request with
  | .store payload => some (payload.due exchange.queue exchange.host)
  | _ => none

theorem outcome_store (payload : Payload) (queue : Queue) (host : Host) :
    outcome ⟨queue, host, .store payload⟩ =
      let stored := (payload.enqueue queue).run host
      ((.stored stored.1.1, stored.1.2), stored.2) :=
  Program.run_andThen _ _ _

/-- What is reported is what is due, and nothing else. -/
theorem received (exchange : Exchange) :
    exchange.outcome.2.received = exchange.host.told exchange.due?.toList := by
  obtain ⟨queue, host, request⟩ := exchange
  by_cases reported : ∃ payload, request = .store payload
  · obtain ⟨payload, rfl⟩ := reported
    rw [outcome_store]
    exact Queue.received_enqueue payload queue host
  · have silent := Request.silent (not_exists.mp reported) queue
    have none : due? ⟨queue, host, request⟩ = none := by
      cases request <;> first | rfl | exact absurd ⟨_, rfl⟩ reported
    rw [none, Option.toList_none, Host.told_nil]
    exact silent.received host

/-- A yes is due to be reported as what was stored, a no as what was lost. -/
theorem whether?_eq (exchange : Exchange) :
    exchange.whether? = exchange.due?.map fun due => !due.2.isLost := by
  obtain ⟨queue, host, request⟩ := exchange
  cases request with
  | store payload =>
    rw [whether?, outcome_store, Queue.run_enqueue]
    simp only [due?, Payload.due, Option.map_some]
    cases ((payload.tryEnqueue queue).run host).1.1 <;> rfl
  | tryStore | tryTake | take | setCapacity | status | sweep =>
    rw [whether?, outcome, Request.program, Program.run_andThen]
    rfl

end Exchange

namespace Fleet

/-- What befalls a host and its queues: everything but the reports becomes that of another
host, a queue is opened, or one is asked for something. -/
inductive Moment where
  | elsewhere (other : Host)
  | opening (options : Queue.Options) (fallback : Path) (token : ProcessToken)
  | asking (position : Nat) (request : Request)

/-- The question that is put at a moment, if the queue is there. -/
def exchange? (fleet : Fleet) : Moment → Option Exchange
  | .asking position request => fleet.queues[position]?.map fun queue => ⟨queue, fleet.host, request⟩
  | _ => none

/-- A moment passes. -/
def pass (fleet : Fleet) : Moment → Fleet
  | .elsewhere other =>
    { fleet with host := { other with reports := fleet.host.reports, tally := fleet.host.tally } }
  | .opening options fallback token =>
    let opened := (Queue.openWith options fallback token).run fleet.host
    ⟨opened.2, fleet.queues ++ opened.1.toOption.toList⟩
  | .asking position request =>
    match fleet.exchange? (.asking position request) with
    | none => fleet
    | some exchange => ⟨exchange.outcome.2, fleet.queues.set position exchange.outcome.1.2⟩

/-- One moment after another. -/
def passAll (fleet : Fleet) (moments : List Moment) : Fleet := moments.foldl pass fleet

/-- The questions that are put in a run. -/
def exchanges (fleet : Fleet) : List Moment → List Exchange
  | [] => []
  | moment :: rest => (fleet.exchange? moment).toList ++ (fleet.pass moment).exchanges rest

/-- The reports that are due in a run. -/
def dues (fleet : Fleet) (moments : List Moment) : List (Nat × Report) :=
  (fleet.exchanges moments).filterMap Exchange.due?

/-- What is reported at a moment is due for the question that is put then. -/
theorem received_pass (fleet : Fleet) (moment : Moment) :
    (fleet.pass moment).host.received
      = fleet.host.told ((fleet.exchange? moment).toList.filterMap Exchange.due?) := by
  cases moment with
  | elsewhere other => exact fleet.host.told_nil.symm
  | opening options fallback token =>
    have unasked : fleet.exchange? (.opening options fallback token) = none := rfl
    rw [unasked, Option.toList_none, List.filterMap_nil, Host.told_nil]
    exact (Queue.silent_openWith options fallback token).received fleet.host
  | asking position request =>
    cases asked : fleet.exchange? (.asking position request) with
    | none =>
      simp only [pass, asked]
      exact fleet.host.told_nil.symm
    | some exchange =>
      have here : exchange.host = fleet.host := by
        obtain ⟨queue, -, rfl⟩ := Option.map_eq_some_iff.mp asked
        rfl
      simp only [pass, asked]
      rw [exchange.received, here, Option.toList_some]
      cases due : exchange.due? <;> simp [due]

theorem received_passAll (fleet : Fleet) (moments : List Moment) :
    (fleet.passAll moments).host.received = fleet.host.told (fleet.dues moments) := by
  induction moments generalizing fleet with
  | nil => exact fleet.host.told_nil.symm
  | cons moment rest ih =>
    refine (ih (fleet.pass moment)).trans ?_
    rw [Host.told_append (fleet.received_pass moment), dues, dues, exchanges, List.filterMap_append]

theorem filterMap_whether? (exchanges : List Exchange) :
    exchanges.filterMap Exchange.whether?
      = (exchanges.filterMap Exchange.due?).map fun due => !due.2.isLost := by
  rw [List.map_filterMap]
  exact List.filterMap_congr fun exchange _ => exchange.whether?_eq

/-- What has been reported in a run: one report for each yes and each no, in their order, and
nothing else. -/
structure ReportedOnce (fleet : Fleet) (moments : List Moment) : Prop where
  reports : (fleet.passAll moments).host.reports
    = fleet.host.reports ++ (fleet.dues moments).map Prod.snd
  counted : (fleet.passAll moments).host.tally = fleet.host.tally.counted (fleet.dues moments)
  whether : (fleet.exchanges moments).filterMap Exchange.whether?
    = (fleet.dues moments).map fun due => !due.2.isLost
  unreported : ∀ exchange ∈ fleet.exchanges moments, exchange.whether? = none →
    exchange.outcome.2.received = exchange.host.received

/-- A queue does the same whichever way it is asked, and over every run it reports what it
answers by yes or no, once, and nothing else. -/
theorem reported_once :
    (∀ (queue : Queue) (host : Host), queue.Agrees host) ∧
      ∀ (fleet : Fleet) (moments : List Moment), fleet.ReportedOnce moments := by
  refine ⟨Queue.agrees, fun fleet moments => ?_⟩
  obtain ⟨reports, counted⟩ := Prod.mk.inj (fleet.received_passAll moments)
  refine ⟨reports, counted, filterMap_whether? _, ?_⟩
  intro exchange _ neither
  have none : exchange.due? = none := by
    rwa [exchange.whether?_eq, Option.map_eq_none_iff] at neither
  rw [exchange.received, none, Option.toList_none, Host.told_nil]

end Fleet
end DiskQueue
