/-
Module: DiskQueue.Proofs.CapacityGate
Purpose: When a queue refuses a payload for its capacity, and how far a record that it
  stores may overshoot it.
Trusted boundary: none
Main exports:
  Queue.tryEnqueue_full_iff, Queue.Gate, Queue.peakCapacity, Request.longestPayload,
  Queue.Settled.size_session_le, Queue.gated
-/
import DiskQueue.Proofs.ByteCount
import DiskQueue.Proofs.Capacity
import DiskQueue.Proofs.Tidiness

namespace DiskQueue

open FileTree (Fits Committed)
open FileNames (asTemporary)

/-!
A queue compares its size with its capacity before it looks at what is to be stored, and not
afterwards. So the gate is open or shut for every payload alike, and a record that is let in may
overshoot the capacity by its own length, which the length of its payload bounds. When the
capacity is lowered nothing is removed: the size may lie above the capacity for long, but no
higher than the greatest capacity that there has been admits.
-/

/-- The number of bytes of the payload that is to be stored, if there is one. -/
def Request.payloadLength (request : Request) : Nat :=
  request.payload?.elim 0 fun payload => payload.transmission.content.length

/-- The number of bytes of the longest payload that is to be stored. -/
def Request.longestPayload : List Request → Nat
  | [] => 0
  | request :: rest => max request.payloadLength (longestPayload rest)

namespace Queue

variable {queue left : Queue} {folder : Key} {host after : Host} {request : Request}
  {answer : Answer}

/-! ### The gate -/

/-- What keeps a record from being stored is its file or its name, never the capacity. -/
theorem run_commitRecord_ne (queue : Queue) (record : Bytes) (host : Host) (megabytes : UInt64) :
    ((queue.commitRecord record).run host).1.1 ≠ .error (.capacityExceeded megabytes) := by
  have publishing (left : Queue) (staged : Path) (size : UInt64) (host : Host) :
      ((left.publish staged size).run host).1.1 ≠ .error (.capacityExceeded megabytes) := by
    unfold publish
    split
    · nofun
    · rw [Program.run_andThen]
      cases ((Program.rename staged _).run host).1 with
      | error e => nofun
      | ok done => nofun
  unfold commitRecord
  rw [Program.run_andThen]
  obtain ⟨⟨created, left⟩, staging⟩ := (queue.createStaging maxStagingAttempts).run host
  cases created with
  | error e => nofun
  | ok staged =>
    dsimp only
    rw [Program.run_andThen]
    obtain ⟨written, synced⟩ := (writeSynced staged record).run staging
    cases written with
    | error e => nofun
    | ok done => exact publishing left staged _ synced

theorem tryStore_of_room (room : queue.size < queue.capacityBytes) (record : Bytes) :
    queue.tryStore (.ok record) = queue.commitRecord record := by
  have spare : ¬ queue.isFull = true := by simpa [isFull] using room
  rw [tryStore, if_neg spare]

/-- A payload is refused for the capacity exactly if the size has reached it. -/
theorem tryEnqueue_full_iff (payload : Payload) (queue : Queue) (host : Host) :
    (∃ megabytes, ((payload.tryEnqueue queue).run host).1.1
      = .error (.capacityExceeded megabytes)) ↔ queue.capacityBytes ≤ queue.size := by
  rw [payload.tryEnqueue_eq]
  constructor
  · rintro ⟨megabytes, refused⟩
    by_contra room
    rw [UInt64.not_le] at room
    cases record : payload.record with
    | error e =>
      have spare : ¬ queue.isFull = true := by simpa [isFull] using room
      rw [record, tryStore, if_neg spare] at refused
      cases refused
    | ok record' =>
      rw [record, tryStore_of_room room] at refused
      exact run_commitRecord_ne queue record' host megabytes refused
  · intro full
    exact ⟨_, by rw [tryStore_of_isFull (by simpa [isFull] using full)]; rfl⟩

/-- The gate of a queue, for all payloads and their records of any length. It is shut exactly if
the size has reached the capacity, and then nothing happens. If it is open the record is stored,
provided that the path leads to the folder and there is room for the name that is drawn. The
capacity is set without touching a file. -/
structure Gate (folder : Key) (queue : Queue) (host : Host) : Prop where
  shut : ∀ payload : Payload, (∃ megabytes, ((payload.tryEnqueue queue).run host).1.1
    = .error (.capacityExceeded megabytes)) ↔ queue.capacityBytes ≤ queue.size
  refused : ∀ payload : Payload, queue.capacityBytes ≤ queue.size →
    (payload.tryEnqueue queue).run host
      = ((.error (.capacityExceeded queue.capacityMb), queue), host)
  stored : ∀ (payload : Payload) (record : Bytes), queue.size < queue.capacityBytes →
    payload.record = .ok record → host.Reaches folder queue.directory →
    Fits queue.directory (asTemporary (queue.triedBase host 0)) →
    ∃ after, (payload.tryEnqueue queue).run host
        = ((.ok (FileNames.committedPath queue.directory (queue.triedBase host 0)),
          { queue.advance 1 with size := queue.size + UInt64.ofNat record.length }), after) ∧
      Committed folder (queue.triedBase host 0) record host.tree after.tree
  told : ∀ payload : Payload, ((payload.enqueue queue).run host).1
      = (((payload.tryEnqueue queue).run host).1.1.toOption.isSome,
        ((payload.tryEnqueue queue).run host).1.2) ∧
    ((payload.enqueue queue).run host).2.tree = ((payload.tryEnqueue queue).run host).2.tree
  spared : ∀ megabytes, ((queue.setCapacity megabytes).run host).2.tree = host.tree

theorem Settled.gate (h : queue.Settled folder host) : queue.Gate folder host where
  shut payload := tryEnqueue_full_iff payload queue host
  refused payload full := by
    rw [payload.tryEnqueue_eq, tryStore_of_isFull (by simpa [isFull] using full)]
    rfl
  stored payload record room encoded reaches fits := by
    have put := endsWith_commitRecord_of_vacant record h.serves reaches h.faultless
      h.valid (h.vacant reaches)
    rw [payload.tryEnqueue_eq, encoded, tryStore_of_room room]
    unfold Program.EndsWith at put
    generalize (queue.commitRecord record).run host = ended at put ⊢
    obtain ⟨outcome, after⟩ := ended
    cases put with
    | unfit e unfit same => exact absurd fits unfit
    | stored committed => exact ⟨after, rfl, committed⟩
  told payload := by
    rw [run_enqueue]
    exact ⟨rfl, (Host.later_tallied _ _).2.1⟩
  spared megabytes := by
    rw [setCapacity, Program.run_andThen]
    cases Limits.storage.replaced? megabytes <;> rfl

/-! ### How far the capacity is overshot -/

/-- The greatest capacity in bytes that a queue has while it answers requests. -/
def peakCapacity : List Request → Queue → Host → Nat
  | [], queue, _ => queue.capacityBytes.toNat
  | request :: rest, queue, host =>
    max queue.capacityBytes.toNat
      (peakCapacity rest ((request.program queue).run host).1.2
        ((request.program queue).run host).2)

/-- A request leaves the size or lessens it, or the size was below the capacity and grows by a
record at most. -/
theorem Served.size_le (run : (request.program queue).run host = ((answer, left), after))
    (h : Served queue folder host after request (answer, left)) :
    left.size.toNat ≤ max queue.size.toNat
      (queue.capacityBytes.toNat - 1 + (Record.maxHeaderLength + 1 + request.payloadLength)) := by
  cases h with
  | storing payload _ result _ asked said silent outcome =>
    rcases outcome with ⟨-, rfl, -⟩ | ⟨record, encoded, outcome⟩
    · exact Nat.le_max_left _ _
    cases outcome with
    | refused e drawn bound => exact Nat.le_max_left _ _
    | abandoned e number offset bound => exact Nat.le_max_left _ _
    | stored number offset bound =>
      have room := isFull_of_stored run said
      rw [isFull, decide_eq_false_iff_not, UInt64.not_le, UInt64.lt_iff_toNat_lt] at room
      have length := payload.length_record encoded
      have sum : (queue.size + UInt64.ofNat record.length).toNat
          ≤ queue.size.toNat + record.length := by
        rw [UInt64.toNat_add, UInt64.toNat_ofNat']
        exact (Nat.mod_le _ _).trans (Nat.add_le_add_left (Nat.mod_le _ _) _)
      have bytes : request.payloadLength = payload.transmission.content.length := by
        rw [Request.payloadLength, asked]
        rfl
      rw [bytes]
      refine le_max_of_le_right (sum.trans ?_)
      omega
  | taking _ result _ asked silent said outcome =>
    apply le_max_of_le_left
    cases outcome with
    | unlisted => exact Nat.le_refl _
    | nothing => exact Nat.le_refl _
    | claimed base _ taken slash claim consumed =>
      cases consumed with
      | failed => exact Nat.le_refl _
      | took content =>
        show (Saturating.sub queue.size (UInt64.ofNat content.length)).toNat ≤ queue.size.toNat
        rw [Saturating.toNat_sub]
        exact Nat.sub_le _ _
  | other _ capacityMb asked takesNone => exact Nat.le_max_left _ _

/-- A queue is never larger than it was at first, or than the greatest capacity admits. -/
theorem Settled.size_session_le (h : queue.Settled folder host) (requests : List Request) :
    (queue.session requests host).2.1.size.toNat ≤ max queue.size.toNat
      (queue.peakCapacity requests host - 1
        + (Record.maxHeaderLength + 1 + Request.longestPayload requests)) := by
  have widen {size first peak capacity length longest : Nat}
      (le : first ≤ max size (capacity - 1 + (Record.maxHeaderLength + 1 + length))) :
      max first (peak - 1 + (Record.maxHeaderLength + 1 + longest))
        ≤ max size (max capacity peak - 1 + (Record.maxHeaderLength + 1 + max length longest)) := by
    omega
  induction requests generalizing queue host with
  | nil => exact Nat.le_max_left _ _
  | cons request rest ih =>
    have first : ((request.program queue).run host).1.2.size.toNat ≤ max queue.size.toNat
        (queue.capacityBytes.toNat - 1 + (Record.maxHeaderLength + 1 + request.payloadLength)) :=
      (h.served request).size_le rfl
    exact (ih (h.step request).1).trans (widen first)

/-! ### The queue that is alone on its folder -/

/-- Whatever a queue that is alone has answered, it refuses a payload for its capacity exactly if
its size has reached the capacity, it stores every record otherwise, of whatever length, and a
change of the capacity touches no file. For storing, the path must still lead to the folder, as it
does if it has not led there through a temporary name of the folder, and there must be room for
the name. Its size is at most what it was at first, or the greatest capacity so far less one, a
header line with its newline and the longest payload so far. -/
theorem gated {start ready : Host} {options : Options} {fallback : Path} {token : ProcessToken}
    (opened : (openWith options fallback token).run start = (.ok queue, ready))
    (offers : ready.Offers folder) (faultless : ready.Faultless)
    (reaches : ready.Reaches folder queue.directory) (valid : token.IsValid)
    (unused : ∀ name node, ready.tree.lookup (folder ++ [name]) = some node →
      FileNames.contains token.bytes name = false)
    (requests : List Request) (ran : (queue.session requests ready).2 = (left, host)) :
    left.Gate folder host ∧
    (ready.ReachesAside folder queue.directory → host.Reaches folder left.directory) ∧
    left.size.toNat ≤ max queue.size.toNat
      (queue.peakCapacity requests ready - 1 + 4097 + Request.longestPayload requests) := by
  have settled := Settled.of_opened offers faultless reaches valid unused opened
  obtain ⟨settled', directory⟩ := settled.session requests
  have bound := settled.size_session_le requests
  have stays := fun aside => settled.reachesAside_session aside requests
  rw [ran] at settled' directory bound stays
  refine ⟨settled'.gate, ?_, ?_⟩
  · intro aside
    rw [directory]
    exact (stays aside).reaches
  · rwa [Nat.add_assoc]

/-- A queue takes the record that it found, with its capacity lowered, and stores two others.
Its gate is open then, so a third one is stored. -/
theorem gated_after_session :
    let start := Host.quiet (recordAlone [0x61]) [] 1700000000123 (.start 0)
    let requests : List Request :=
      [.setCapacity 1, .take, .tryStore (.bare [1]), .store (.labelled ⟨[2, 3], "text", ""⟩)]
    ∃ queue ready left host,
      (openWith .default [Path.slash] ⟨"abcdefgh"⟩).run start = (.ok queue, ready) ∧
      (queue.session requests ready).2 = (left, host) ∧
      (queue.session requests ready).1.delivered = [.ofBytes [0x41]] ∧
      (queue.size.toNat, left.size.toNat) = (37, 104) ∧ left.Gate [] host ∧
      (∃ path later after,
        ((Payload.bare [4]).tryEnqueue left).run host = ((.ok path, later), after)) ∧
      left.size.toNat ≤ max queue.size.toNat
        (queue.peakCapacity requests ready - 1 + 4097 + Request.longestPayload requests) := by
  intro start requests
  let queue : Queue := .ofDefaults [Path.slash] ⟨"abcdefgh"⟩ 37
  let ready := ((openWith .default [Path.slash] ⟨"abcdefgh"⟩).run start).2
  let ended := (queue.session requests ready).2
  have opened : (openWith .default [Path.slash] ⟨"abcdefgh"⟩).run start = (.ok queue, ready) :=
    Program.run_eq (by decide +kernel)
  have ran : (queue.session requests ready).2 = (ended.1, ended.2) := (Prod.mk.eta).symm
  have faultless : ready.Faultless :=
    (Program.later_run (openWith .default [Path.slash] ⟨"abcdefgh"⟩) start).faultless
      (Host.faultless_quiet _ [] 1700000000123 (.start 0))
  have foreign : ∀ name node, start.tree.lookup ([] ++ [name]) = some node →
      FileNames.contains (ProcessToken.bytes ⟨"abcdefgh"⟩) name = false := by
    intro name node there
    have all : ∀ child ∈ start.tree.children [],
        FileNames.contains (ProcessToken.bytes ⟨"abcdefgh"⟩) child.1 = false := by decide +kernel
    exact all _ (FileTree.mem_children_iff.mpr there)
  obtain ⟨offers, reaches, unused⟩ := unused_of_opened
    ⟨wellFormed_recordAlone (by decide), rfl, rfl⟩ (by decide +kernel) (by decide) foreign opened
  obtain ⟨gate, -, bound⟩ := gated opened offers faultless reaches (by decide) unused requests ran
  have short : ([4] : Bytes).length < 2 ^ 64 := by decide
  obtain ⟨after, again, -⟩ := gate.stored (.bare [4]) _ (by decide +kernel)
    (Record.parts_of_short (Record.length_line_ofBytes short) [4]) (by decide +kernel)
    (by decide +kernel)
  exact ⟨queue, ready, ended.1, ended.2, opened, ran, by decide +kernel, by decide +kernel, gate,
    ⟨_, _, after, again⟩, bound⟩

/-- A queue that is not full refuses a record, although nothing fails and no entry carries its
token. -/
def RefusesWithRoom (start : Host) (directory : Path) (requests : List Request) : Prop :=
  start.Offers [] ∧ start.Faultless ∧ start.Reaches [] directory ∧
    (∀ name node, start.tree.lookup ([] ++ [name]) = some node →
      FileNames.contains (ProcessToken.bytes ⟨"abcdefgh"⟩) name = false) ∧
    ∃ queue ready left host record e,
      (openWith .default directory ⟨"abcdefgh"⟩).run start = (.ok queue, ready) ∧
      (queue.session requests ready).2 = (left, host) ∧
      left.size < left.capacityBytes ∧ (Payload.bare [0x42]).record = .ok record ∧
      (((Payload.bare [0x42]).tryEnqueue left).run host).1.1 = .error (.staging e)

theorem refusesWithRoom_of_run {start : Host} {directory : Path} {requests : List Request}
    (size : UInt64) (e : IoError) (offers : start.Offers []) (faultless : start.Faultless)
    (unused : ∀ name node, start.tree.lookup ([] ++ [name]) = some node →
      FileNames.contains (ProcessToken.bytes ⟨"abcdefgh"⟩) name = false)
    (ran : let queue := ofDefaults directory ⟨"abcdefgh"⟩ size
      let opened := (openWith .default directory ⟨"abcdefgh"⟩).run start
      let ended := (queue.session requests opened.2).2
      start.Reaches [] directory ∧ opened.1 = .ok queue ∧ ended.1.size < ended.1.capacityBytes ∧
        (((Payload.bare [0x42]).tryEnqueue ended.1).run ended.2).1.1 = .error (.staging e)) :
    RefusesWithRoom start directory requests := by
  obtain ⟨reaches, opened, room, refused⟩ := ran
  have short : ([0x42] : Bytes).length < 2 ^ 64 := by decide
  have encoded := Record.parts_of_short (Record.length_line_ofBytes short) [0x42]
  exact ⟨offers, faultless, reaches, unused, _, _, _, _, _, e, Program.run_eq opened,
    (Prod.mk.eta).symm, room, encoded, refused⟩

/-- The path may lead through a link whose name a record is given when it is taken, and the path of
a new file may be too long for the system where that of the file that is made at the opening is
not. -/
theorem refuses_with_room :
    let host := fun tree => Host.quiet tree [] 1700000000123 (.start 0)
    let short : Name := [0x61]
    let linked := (recordAlone short).insert ([] ++ [asTemporary short]) (.link [Path.dot])
    RefusesWithRoom (host linked) (Path.slash :: asTemporary short) [.tryTake] ∧
      RefusesWithRoom (host .empty) (List.replicate 4060 Path.slash) [] := by
  intro host short linked
  have placed := FileTree.sets_insert (recordAlone short) [] (asTemporary short) (.link [Path.dot])
  have link : linked.WellFormed :=
    placed.wellFormed (by decide +kernel) rfl
      (fun _ _ => FileNames.isProper_withExtension FileNames.temporary_mem_extensions (by decide))
      (wellFormed_recordAlone (by decide))
  have token : ∀ extension ∈ FileNames.extensions, FileNames.contains
      (ProcessToken.bytes ⟨"abcdefgh"⟩) (FileNames.withExtension short extension) = false := by
    decide +kernel
  constructor
  · refine refusesWithRoom_of_run 37 .notDirectory ⟨link, rfl, rfl⟩
      (Host.faultless_quiet _ _ _ _) ?_ (by decide +kernel)
    intro name node there
    by_cases own : name = asTemporary short
    · exact own ▸ token _ FileNames.temporary_mem_extensions
    · have old := (placed.lookup_sibling own).symm.trans there
      rw [lookup_recordAlone] at old
      split at old
      · rename_i record
        exact record ▸ token _ FileNames.committed_mem_extensions
      · cases old
  · refine refusesWithRoom_of_run 0 .nameTooLong (Host.offers_quiet _ _)
      (Host.faultless_quiet _ _ _ _) ?_ (by decide +kernel)
    intro name node there
    cases (FileTree.lookup_empty (List.cons_ne_nil name [])).symm.trans there

end Queue
end DiskQueue
