/-
Module: DiskQueue.Proofs.Requests
Purpose: All that a queue can be asked for, and what each request does to its folder.
Trusted boundary: none
Main exports:
  Payload, Request, Request.program, Answer, Request.stored?, Answer.delivered?,
  Queue.Served, Queue.RequestCut, Queue.meets_request
-/
import DiskQueue.Proofs.Opening
import DiskQueue.Proofs.RecordRoundTrip
import DiskQueue.Proofs.Storing
import DiskQueue.Proofs.Sweeping

namespace DiskQueue

open FileTree (Sets Follows Begun Committed Took Swept)
open FileNames (asCommitted asTemporary)

/-!
Seen from the folder there are three kinds of requests: those that store a payload, those
that take a record, and those that touch no record. What becomes of a payload or a record
is told by the answer alone.
-/

/-! ### Changes that concern no record -/

namespace FileTree

variable {folder : Key} {base : Name} {before after : FileTree}

/-- Only entries that are no records have changed, and those that have are files. -/
def Quiet (folder : Key) (before after : FileTree) : Prop :=
  ∀ name, after.lookup (folder ++ [name]) = before.lookup (folder ++ [name]) ∨
    (∀ base, name ≠ asCommitted base) ∧
      ∀ node, after.lookup (folder ++ [name]) = some node → node.kind = .file

theorem quiet_of_sets {name : Name} {node? : Option Node}
    (sets : Sets folder name node? before after) (spare : ∀ base, name ≠ asCommitted base)
    (file : ∀ node, node? = some node → node.kind = .file) : Quiet folder before after := by
  intro other
  by_cases own : other = name
  · subst own
    refine .inr ⟨spare, ?_⟩
    rw [sets.lookup_self]
    exact file
  · exact .inl (sets.lookup_sibling own)

theorem quiet_of_begun {record : Bytes} (begun : Begun folder base record before after) :
    Quiet folder before after := by
  obtain ⟨content, modified, -, sets⟩ := begun.sets
  refine quiet_of_sets sets (fun other same => FileNames.committed_ne_temporary other base same.symm)
    ?_
  rintro node ⟨⟩
  rfl

theorem quiet_of_swept (swept : Swept folder before after) : Quiet folder before after := by
  intro name
  rcases swept (folder ++ [name]) with same | ⟨gone, base, own, -⟩
  · exact .inl same
  · obtain ⟨-, same⟩ := List.append_inj' own rfl
    cases same
    exact .inr ⟨fun other same => FileNames.committed_ne_temporary other base same.symm,
      FileTree.isPlain_of_free gone⟩

theorem Quiet.lookup_committed (quiet : Quiet folder before after) (base : Name) :
    after.lookup (folder ++ [asCommitted base]) = before.lookup (folder ++ [asCommitted base]) := by
  rcases quiet (asCommitted base) with same | ⟨spare, -⟩
  · exact same
  · exact absurd rfl (spare base)

end FileTree

open FileTree (Quiet quiet_of_sets)

/-! ### Requests and answers -/

/-- What can be stored: a transmission with its labels, or bare bytes. -/
inductive Payload where
  | labelled (transmission : Transmission)
  | bare (content : Bytes)
deriving Repr, DecidableEq

namespace Payload

/-- The record that is written for a payload. -/
def record : Payload → Except IoError Bytes
  | .labelled transmission => Record.encode transmission
  | .bare content => Record.encodeRaw content

/-- What comes back for a payload: bare bytes have no labels. -/
def transmission : Payload → Transmission
  | .labelled transmission => transmission
  | .bare content => .ofBytes content

/-- Stores a payload, and gives the path of its file. -/
def tryEnqueue : Payload → Queue → Program (Except QueueError Path × Queue)
  | .labelled transmission, queue => queue.tryEnqueue transmission
  | .bare content, queue => queue.tryEnqueueRaw content

/-- Stores a payload, and says whether it was stored. -/
def enqueue : Payload → Queue → Program (Bool × Queue)
  | .labelled transmission, queue => queue.enqueue transmission
  | .bare content, queue => queue.enqueueRaw content

theorem tryEnqueue_eq (payload : Payload) (queue : Queue) :
    payload.tryEnqueue queue = queue.tryStore payload.record := by
  cases payload <;> rfl

theorem enqueue_eq (payload : Payload) (queue : Queue) :
    payload.enqueue queue = queue.tryStore payload.record >>= Queue.reportStored := by
  cases payload <;> rfl

/-- What was stored for a payload is read back as that payload. -/
theorem decode_record {payload : Payload} {record : Bytes} (h : payload.record = .ok record)
    (h64 : payload.transmission.content.length < 2 ^ 64) :
    Record.decode record = .ok payload.transmission := by
  cases payload with
  | labelled transmission => exact Record.decode_of_encode h h64
  | bare content => exact Record.decode_of_encodeRaw h h64

/-- A record is longer than its payload by a header line at most. -/
theorem length_record {payload : Payload} {record : Bytes} (h : payload.record = .ok record) :
    record.length ≤ Record.maxHeaderLength + 1 + payload.transmission.content.length := by
  cases payload <;> exact Record.length_of_parts h

end Payload

/-- The report on an attempt to store. -/
def Report.ofAttempt : Except QueueError Path → Report
  | .ok _ => .stored
  | .error e => .lost e.message

/-- Storing by yes or no is an attempt with a report behind it. -/
theorem Queue.run_enqueue (payload : Payload) (queue : Queue) (host : Host) :
    (payload.enqueue queue).run host =
      let tried := (payload.tryEnqueue queue).run host
      ((tried.1.1.toOption.isSome, tried.1.2),
        (tried.2.tallied (Report.ofAttempt tried.1.1)).counted) := by
  rw [payload.enqueue_eq, payload.tryEnqueue_eq, Program.run_andThen]
  obtain ⟨⟨result, left⟩, after⟩ := (queue.tryStore payload.record).run host
  cases result <;> rfl

/-- What a queue can be asked for. -/
inductive Request where
  | tryStore (payload : Payload)
  | store (payload : Payload)
  | tryTake
  | take
  | setCapacity (megabytes : Int64)
  | status
  | sweep (minAgeMs : Nat)
deriving Repr, DecidableEq

/-- What a queue answers. -/
inductive Answer where
  | tried (result : Except QueueError Path)
  | stored (whether : Bool)
  | taken (result : Except QueueError (Option Transmission))
  | found (transmission : Option Transmission)
  | done
  | status (result : Except QueueError Status)
  | swept (result : Except QueueError (List SweptFile))

namespace Request

/-- The work on a request. -/
def program : Request → Queue → Program (Answer × Queue)
  | .tryStore payload, queue => do
    let (result, queue) ← payload.tryEnqueue queue
    pure (.tried result, queue)
  | .store payload, queue => do
    let (whether, queue) ← payload.enqueue queue
    pure (.stored whether, queue)
  | .tryTake, queue => do
    let (result, queue) ← queue.tryDequeue
    pure (.taken result, queue)
  | .take, queue => do
    let (transmission, queue) ← queue.dequeue
    pure (.found transmission, queue)
  | .setCapacity megabytes, queue => do
    let queue ← queue.setCapacity megabytes
    pure (.done, queue)
  | .status, queue => do
    let result ← queue.status
    pure (.status result, queue)
  | .sweep minAgeMs, queue => do
    let result ← queue.sweep minAgeMs
    pure (.swept result, queue)

/-- The payload that is to be stored. -/
def payload? : Request → Option Payload
  | .tryStore payload => some payload
  | .store payload => some payload
  | _ => none

/-- Whether a record is to be taken. -/
def takes : Request → Bool
  | .tryTake => true
  | .take => true
  | _ => false

/-- The payload that an answer says is stored. -/
def stored? : Request → Answer → Option Payload
  | .tryStore payload, .tried (.ok _) => some payload
  | .store payload, .stored true => some payload
  | _, _ => none

end Request

/-- The transmission that an answer gives. -/
def Answer.delivered? : Answer → Option Transmission
  | .taken (.ok transmission) => transmission
  | .found transmission => transmission
  | _ => none

namespace Queue

variable {queue : Queue} {folder : Key} {host after : Host}

theorem quiet_of_checked {before after : FileTree} {token : ProcessToken} (valid : token.IsValid)
    (checked : Checked folder token before after) : Quiet folder before after := by
  rcases checked with rfl | ⟨node?, file, sets⟩
  · exact fun _ => .inl rfl
  · refine quiet_of_sets sets ?_ file
    exact fun base => FileNames.append_bytes_ne_withExtension _ valid
      FileNames.committed_mem_extensions

theorem OpenOutcome.quiet {options : Options} {fallback : Path} {token : ProcessToken}
    {result : Except QueueError Queue} (valid : token.IsValid)
    (h : OpenOutcome options fallback token folder host after result) :
    Quiet folder host.tree after.tree := by
  cases h with
  | refused e checked => exact quiet_of_checked valid checked
  | opened size sets => exact quiet_of_checked valid (.inr ⟨none, by simp, sets⟩)

/-- What a request comes to. -/
inductive Served (queue : Queue) (folder : Key) (host after : Host) (request : Request) :
    Answer × Queue → Prop
  | storing (payload : Payload) (answer : Answer) (result : Except QueueError Path)
      (later : Queue) (asked : request.payload? = some payload)
      (said : request.stored? answer = result.toOption.map fun _ => payload)
      (silent : answer.delivered? = none)
      (outcome : (∃ e, result = .error e) ∧ later = queue ∧ after.tree = host.tree ∨
        ∃ bytes, payload.record = .ok bytes ∧
          StoreOutcome queue folder bytes host after (result, later)) :
      Served queue folder host after request (answer, later)
  | taking (answer : Answer) (result : Except QueueError (Option Transmission)) (later : Queue)
      (asked : request.takes = true) (silent : request.stored? answer = none)
      (said : answer.delivered? = result.toOption.join)
      (outcome : DequeueOutcome queue folder host after (result, later)) :
      Served queue folder host after request (answer, later)
  | other (answer : Answer) (capacityMb : UInt64) (asked : request.payload? = none)
      (takesNone : request.takes = false) (silent : request.stored? answer = none)
      (silent' : answer.delivered? = none) (swept : Swept folder host.tree after.tree) :
      Served queue folder host after request (answer, { queue with capacityMb := capacityMb })

/-- What a request leaves behind where the work on it is cut off. -/
def RequestCut (queue : Queue) (folder : Key) (request : Request) (before tree : FileTree) :
    Prop :=
  match request.payload? with
  | some payload => tree = before ∨
      ∃ bytes, payload.record = .ok bytes ∧ StoreCut queue folder bytes before tree
  | none => Swept folder before tree ∨ request.takes = true ∧ TakeCut folder before tree

theorem Served.follows {request : Request} {outcome : Answer × Queue}
    (serves : host.Serves folder queue.directory) (valid : queue.token.IsValid)
    (h : Served queue folder host after request outcome) :
    Follows folder host.tree after.tree := by
  cases h with
  | storing payload answer result later asked said silent outcome =>
    rcases outcome with ⟨-, -, same⟩ | ⟨bytes, -, outcome⟩
    · exact same ▸ Follows.refl _ _
    · exact outcome.follows serves valid
  | taking answer result later asked silent said outcome => exact outcome.follows serves.isFolder
  | other answer capacityMb asked takesNone silent silent' swept => exact swept.follows

/-- What is left of a queue has the same name, its candidates are sound, and it has drawn
a few numbers. -/
theorem Served.queue_eq {request : Request} {answer : Answer} {later : Queue}
    (serves : host.Serves folder queue.directory) (valid : queue.token.IsValid)
    (sound : queue.candidates.Sound folder queue.directory host.tree)
    (h : Served queue folder host after request (answer, later)) :
    later.token = queue.token ∧ later.directory = queue.directory ∧
      later.candidates.Sound folder queue.directory after.tree ∧
      ∃ count, count ≤ maxStagingAttempts ∧
        later.sequence = queue.sequence + UInt64.ofNat count := by
  have kept := sound.follow (h.follows serves valid)
  cases h with
  | storing payload answer result later asked said silent outcome =>
    rcases outcome with ⟨-, rfl, -⟩ | ⟨bytes, -, outcome⟩
    · exact ⟨rfl, rfl, kept, 0, Nat.zero_le _, by simp⟩
    · cases outcome with
      | refused e drawn bound => exact ⟨rfl, rfl, kept, drawn, bound, rfl⟩
      | abandoned e number offset bound => exact ⟨rfl, rfl, kept, offset + 1, bound, rfl⟩
      | stored number offset bound => exact ⟨rfl, rfl, kept, offset + 1, bound, rfl⟩
  | taking answer result later asked silent said outcome =>
    obtain ⟨token, directory, sequence, left⟩ := outcome.queue_eq serves sound
    exact ⟨token, directory, left, 0, Nat.zero_le _, by simp [sequence]⟩
  | other answer capacityMb => exact ⟨rfl, rfl, kept, 0, Nat.zero_le _, by simp⟩

theorem RequestCut.follows {request : Request} {tree : FileTree}
    (serves : host.Serves folder queue.directory) (valid : queue.token.IsValid)
    (h : RequestCut queue folder request host.tree tree) : Follows folder host.tree tree := by
  unfold RequestCut at h
  split at h
  · rcases h with rfl | ⟨bytes, -, stopped⟩
    · exact Follows.refl _ _
    · exact stopped.follows serves valid
  · rcases h with swept | ⟨-, stopped⟩
    · exact swept.follows
    · exact stopped.follows serves.isFolder

theorem served_storing (request : Request) (payload : Payload)
    (asked : request.payload? = some payload) (answer : Answer) (outcome : Except QueueError Path × Queue)
    (said : request.stored? answer = outcome.1.toOption.map fun _ => payload)
    (silent : answer.delivered? = none)
    (h : (∃ e, outcome = (.error e, queue) ∧ after.tree = host.tree) ∨
      ∃ bytes, payload.record = .ok bytes ∧ StoreOutcome queue folder bytes host after outcome) :
    Served queue folder host after request (answer, outcome.2) := by
  obtain ⟨result, later⟩ := outcome
  refine .storing payload answer result later asked said silent ?_
  rcases h with ⟨e, eq, same⟩ | stored
  · obtain ⟨rfl, rfl⟩ := Prod.mk.inj eq
    exact .inl ⟨⟨e, rfl⟩, rfl, same⟩
  · exact .inr stored

theorem meets_storing {payload : Payload} (serves : host.Serves folder queue.directory)
    (valid : queue.token.IsValid) {request : Request} (asked : request.payload? = some payload) :
    Program.Meets (RequestCut queue folder request host.tree)
      (fun outcome after => (∃ e, outcome = (.error e, queue) ∧ after.tree = host.tree) ∨
        ∃ bytes, payload.record = .ok bytes ∧ StoreOutcome queue folder bytes host after outcome)
      (queue.tryStore payload.record) host := by
  unfold RequestCut
  rw [asked]
  exact meets_tryStore serves valid

theorem meets_taking (serves : host.Serves folder queue.directory)
    (sound : queue.candidates.Sound folder queue.directory host.tree) {request : Request}
    (takes : request.takes = true) (asked : request.payload? = none) :
    Program.Meets (RequestCut queue folder request host.tree)
      (fun outcome after => DequeueOutcome queue folder host after outcome)
      queue.tryDequeue host := by
  unfold RequestCut
  rw [asked]
  exact (meets_tryDequeue serves sound).mono (fun tree stopped => .inr ⟨takes, stopped⟩)
    fun _ _ _ ended => ended

theorem meets_readsOnly {α : Type} {p : Program α} (looks : p.ReadsOnly) {request : Request}
    (asked : request.payload? = none) :
    Program.Meets (RequestCut queue folder request host.tree)
      (fun _ after => Swept folder host.tree after.tree) p host := by
  unfold RequestCut
  rw [asked]
  apply (looks.meets host).mono
  · rintro tree rfl
    exact .inl (Swept.refl _ _)
  · intro value after _ same
    exact same ▸ Swept.refl _ _

theorem meets_request (request : Request) (serves : host.Serves folder queue.directory)
    (sound : queue.candidates.Sound folder queue.directory host.tree)
    (valid : queue.token.IsValid) :
    Program.Meets (RequestCut queue folder request host.tree)
      (fun outcome after => Served queue folder host after request outcome)
      (request.program queue) host := by
  cases request with
  | tryStore payload =>
    rw [Request.program, payload.tryEnqueue_eq]
    apply (meets_storing serves valid rfl).bind
    intro outcome after later here ended
    refine Program.Meets.done here (served_storing _ payload rfl _ outcome ?_ rfl ended)
    cases outcome.1 <;> rfl
  | store payload =>
    rw [Request.program, payload.enqueue_eq, bind_assoc]
    apply (meets_storing serves valid rfl).bind
    rintro ⟨result, stored⟩ after later here ended
    have told : ∀ (what : Report) (whether : Bool),
        (whether = true ↔ result.toOption.isSome = true) →
        Program.Meets (RequestCut queue folder (.store payload) host.tree)
          (fun outcome last => Served queue folder host last (.store payload) outcome)
          (Program.report what >>= fun _ => pure (.stored whether, stored)) after := by
      intro what whether is
      apply Program.Meets.report here
      intro last laterLast same
      rw [← same] at here
      refine Program.Meets.done here
        (served_storing _ payload rfl (.stored whether) (result, stored) ?_ rfl ?_)
      · cases result <;> cases whether <;> simp_all [Request.stored?, Except.toOption]
      · rcases ended with ⟨e, eq, unchanged⟩ | ⟨bytes, record, outcome⟩
        · exact .inl ⟨e, eq, same.trans unchanged⟩
        · exact .inr ⟨bytes, record, outcome.unchanged laterLast same⟩
    cases result with
    | error e => exact told _ false (by simp [Except.toOption])
    | ok path => exact told _ true (by simp [Except.toOption])
  | tryTake =>
    apply (meets_taking serves sound rfl rfl).bind
    rintro ⟨result, left⟩ after later here ended
    refine Program.Meets.done here (.taking _ result left rfl rfl ?_ ended)
    cases result <;> rfl
  | take =>
    rw [Request.program, dequeue, bind_assoc]
    apply (meets_taking serves sound rfl rfl).bind
    rintro ⟨result, left⟩ after later here ended
    cases result with
    | ok found => exact Program.Meets.done here (.taking _ _ left rfl rfl rfl ended)
    | error e =>
      apply Program.Meets.log here
      intro told laterTold same
      rw [← same] at here
      exact Program.Meets.done here (.taking _ _ left rfl rfl rfl (ended.unchanged same))
  | setCapacity megabytes =>
    have quiet : ∀ {tree}, tree = host.tree → Swept folder host.tree tree := by
      rintro tree rfl
      exact Swept.refl _ _
    rw [Request.program, setCapacity, bind_assoc]
    apply Program.Meets.logAny (.inl (quiet rfl))
    intro first later same
    rw [bind_assoc]
    apply Program.Meets.log (.inl (quiet same))
    intro second laterSecond sameSecond
    have same := sameSecond.trans same
    exact Program.Meets.done (.inl (quiet same)) (.other _ _ rfl rfl rfl rfl (quiet same))
  | status =>
    apply (meets_readsOnly (readsOnly_status queue) rfl).bind
    intro result after later here swept
    exact Program.Meets.done here (.other _ queue.capacityMb rfl rfl rfl rfl swept)
  | sweep minAgeMs =>
    refine ((meets_sweep minAgeMs serves).bind ?_).mono (fun tree swept => .inl swept)
      fun _ _ _ served => served
    intro result after later swept _
    exact Program.Meets.done swept (.other _ queue.capacityMb rfl rfl rfl rfl swept)

end Queue
end DiskQueue
