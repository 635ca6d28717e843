/-
Module: DiskQueue.Proofs.FirstInFirstOut
Purpose: A queue that refills its batch with the lowest names gives records in the order
  in which they were stored.
Trusted boundary: none
Main exports:
  Queue.Waiting, Queue.Waiting.dequeue, Queue.Waiting.session, Queue.first_in_first_out
-/
import DiskQueue.Proofs.Fleet
import DiskQueue.Proofs.NameOrder
import Mathlib.Data.List.Nodup

namespace DiskQueue

open FileTree (Fits Sets Follows Begun Committed Took Quiet quiet_of_begun quiet_of_swept)
open FileNames (asCommitted asTemporary)

/-!
Names are drawn in ascending order, as long as the clock does not go backwards and the
padded numbers in the names do not overflow. So the records that are waiting, the oldest
first, are the committed files of the folder in the order of their names. A batch is made
of the lowest names, and names that are stored later are higher: even an old batch is the
beginning of what is waiting.
-/

/-! ### The order of the names -/

/-- A clock that does not go backwards and shows a time of at most thirteen digits. -/
structure Host.Timely (host : Host) : Prop where
  monotone : ∀ m n, m ≤ n → host.clock m ≤ host.clock n
  range : ∀ n, 0 ≤ host.clock n ∧ host.clock n < 10 ^ 13

/-- A clock that stands still. -/
theorem Host.timely_quiet {time : Int} (range : 0 ≤ time ∧ time < 10 ^ 13) (tree : FileTree)
    (directory : Key) (tally : FailureTally) : (Host.quiet tree directory time tally).Timely :=
  ⟨fun _ _ _ => Int.le_refl _, fun _ => range⟩

namespace Queue

/-- The path of the file of a record. -/
def pathOf (directory : Path) (entry : Name × Payload) : Path :=
  FileNames.committedPath directory entry.1

/-- The records that are waiting, the oldest first: they are the committed files of the
folder, their names ascend, and the batch is the beginning of them. -/
structure Waiting (folder : Key) (queue : Queue) (host : Host) (waiting : List (Name × Payload)) :
    Prop where
  serves : host.Serves folder queue.directory
  reaches : host.Reaches folder queue.directory
  accepted : FileTree.refusal? queue.directory = none
  faultless : host.Faultless
  timely : host.Timely
  valid : queue.token.IsValid
  files : ∀ name node, host.tree.lookup (folder ++ [name]) = some node → node.kind = .file
  there : ∀ entry ∈ waiting, ∃ record modified, entry.2.record = .ok record ∧
    host.tree.lookup (folder ++ [asCommitted entry.1]) = some (.file record modified)
  only : ∀ base node, host.tree.lookup (folder ++ [asCommitted base]) = some node →
    base ∈ waiting.map Prod.fst
  drawn : ∀ entry ∈ waiting, ∃ number sequence, number < host.calls ∧
    sequence.toNat < queue.sequence.toNat ∧
    entry.1 = FileNames.generated (host.clock number) queue.token sequence
  fits : ∀ entry ∈ waiting, Fits queue.directory (asTemporary entry.1) ∧
    Fits queue.directory (asCommitted entry.1)
  short : ∀ entry ∈ waiting, entry.2.transmission.content.length < 2 ^ 64
  ascending : (waiting.map fun entry => asCommitted entry.1).Pairwise (· < ·)
  batch : ∃ count, queue.candidates.batch = (waiting.take count).map (pathOf queue.directory)
  limit : 0 < queue.candidates.limit
  order : queue.candidates.order = .lowestNames
  unclaimed : queue.candidates.claimed = []

variable {folder : Key} {queue later : Queue} {host after : Host}
  {waiting : List (Name × Payload)} {entry : Name × Payload}

namespace Waiting

/-- The base name of a record that is waiting is text and no part of a longer path. -/
theorem base_eq (h : Waiting folder queue host waiting) (mem : entry ∈ waiting) :
    entry.1 ≠ [] ∧ Path.slash ∉ entry.1 ∧ Utf8.isText entry.1 = true := by
  obtain ⟨number, sequence, -, -, eq⟩ := h.drawn entry mem
  rw [eq]
  exact ⟨FileNames.generated_ne_nil _ _ _, FileNames.slash_notMem_generated h.valid,
    FileNames.isText_generated h.valid⟩

theorem sound (h : Waiting folder queue host waiting) :
    queue.candidates.Sound folder queue.directory host.tree := by
  refine ⟨h.unclaimed, ?_⟩
  intro path mem
  obtain ⟨count, batch⟩ := h.batch
  rw [batch] at mem
  obtain ⟨entry, taken, rfl⟩ := List.mem_map.mp mem
  obtain ⟨nonempty, slash, -⟩ := h.base_eq (List.mem_of_mem_take taken)
  exact ⟨entry.1, nonempty, slash, rfl, fun node there => h.files _ node there⟩

/-- The files of the folder in the order of their names are what is waiting. -/
theorem sorted_listed (h : Waiting folder queue host waiting) :
    Candidates.sorted ((Stored.listed host.tree folder FileNames.committed).map queue.directory.join)
      = waiting.map (pathOf queue.directory) := by
  have perm : (waiting.map fun entry => asCommitted entry.1).Perm
      (Stored.listed host.tree folder FileNames.committed) := by
    refine (List.perm_ext_iff_of_nodup h.ascending.nodup (Stored.nodup_listed _ _ _)).mpr ?_
    intro name
    rw [List.mem_map]
    constructor
    · rintro ⟨entry, waits, rfl⟩
      obtain ⟨nonempty, slash, -⟩ := h.base_eq waits
      obtain ⟨record, modified, -, there⟩ := h.there entry waits
      refine Stored.mem_listed.mpr ⟨?_, record, modified, there⟩
      exact FileNames.hasExtension_withExtension nonempty slash FileNames.committed_mem_extensions
    · intro mem
      obtain ⟨base, -, -, rfl, content, modified, there⟩ :=
        Stored.exists_base h.serves.wellFormed mem
      obtain ⟨entry, waits, rfl⟩ := List.mem_map.mp (h.only base _ there)
      exact ⟨entry, waits, rfl⟩
  rw [Candidates.sorted_listed h.serves.wellFormed perm h.ascending, List.map_map]
  rfl

/-- An old batch and a new one are both the beginning of what is waiting. -/
theorem refreshed (h : Waiting folder queue host waiting) :
    ∃ count, queue.candidates.refreshed host.tree folder queue.directory
        = { queue.candidates with
            batch := (waiting.take count).map (pathOf queue.directory) } ∧
      (waiting ≠ [] → count ≠ 0) := by
  unfold Candidates.refreshed
  split
  · refine ⟨queue.candidates.limit, ?_, fun _ => Nat.pos_iff_ne_zero.mp h.limit⟩
    have fresh := h.sorted_listed
    rw [Candidates.batchOf.eq_def, fresh]
    simp only [h.order, List.map_take]
  · rename_i kept
    obtain ⟨count, batch⟩ := h.batch
    refine ⟨count, by rw [← batch], ?_⟩
    rintro - rfl
    exact kept (batch.trans (by simp))

/-! ### What does not change the records -/

/-- Other files may change, and numbers may be drawn. -/
theorem quiet (h : Waiting folder queue host waiting) (since : host.Later after)
    (follows : Follows folder host.tree after.tree) (quiet : Quiet folder host.tree after.tree)
    (token : later.token = queue.token) (directory : later.directory = queue.directory)
    (candidates : later.candidates = queue.candidates)
    (numbers : queue.sequence.toNat ≤ later.sequence.toNat) :
    Waiting folder later after waiting := by
  have links : ∀ name target, host.tree.lookup (folder ++ [name]) ≠ some (.link target) := by
    intro name target there
    cases h.files name _ there
  constructor
  · exact directory ▸ h.serves.follow since follows
  · exact directory ▸ h.reaches.follow since follows links
  · exact directory ▸ h.accepted
  · exact since.faultless h.faultless
  · exact ⟨since.clock ▸ h.timely.monotone, since.clock ▸ h.timely.range⟩
  · exact token ▸ h.valid
  · intro name node found
    rcases quiet name with same | ⟨-, file⟩
    · exact h.files name node (same.symm.trans found)
    · exact file node found
  · intro entry mem
    rw [quiet.lookup_committed]
    exact h.there entry mem
  · intro base node found
    rw [quiet.lookup_committed] at found
    exact h.only base node found
  · intro entry mem
    obtain ⟨number, sequence, before, lower, eq⟩ := h.drawn entry mem
    rw [token, since.clock]
    exact ⟨number, sequence, Nat.lt_of_lt_of_le before since.calls, Nat.lt_of_lt_of_le lower numbers,
      eq⟩
  · exact directory ▸ h.fits
  · exact h.short
  · exact h.ascending
  · rw [candidates, directory]
    exact h.batch
  · exact candidates ▸ h.limit
  · exact candidates ▸ h.order
  · exact candidates ▸ h.unclaimed

/-! ### Storing -/

/-- A name that is drawn now is higher than those that are waiting. -/
theorem lower (h : Waiting folder queue host waiting) (mem : entry ∈ waiting) {number offset : Nat}
    (since : host.calls ≤ number) (room : queue.sequence.toNat + offset < 10 ^ 6) :
    asCommitted entry.1 < asCommitted (queue.base (host.clock number) offset) := by
  obtain ⟨earlier, sequence, before, lower, eq⟩ := h.drawn entry mem
  have last : (queue.sequence + UInt64.ofNat offset).toNat = queue.sequence.toNat + offset :=
    Fleet.toNat_add_ofNat (by omega)
  have times := h.timely.monotone earlier number (by omega)
  rw [eq, asCommitted, FileNames.withExtension, asCommitted, FileNames.withExtension, base]
  rcases Int.lt_or_eq_of_le times with sooner | same
  · exact FileNames.generated_lt_of_millis_lt (h.timely.range _).1 (h.timely.range _).2 sooner
      _ _ _ _ _ _
  · rw [same]
    exact FileNames.generated_lt_of_sequence_lt _ _ (by omega) (by omega) _ _

/-- A record that is stored is the last one that waits. -/
theorem store (h : Waiting folder queue host waiting) {payload : Payload} {record : Bytes}
    {number offset : Nat} {size : UInt64} (later : host.Later after)
    (encoded : payload.record = .ok record) (since : host.calls ≤ number)
    (before : number < after.calls)
    (fits : Fits queue.directory (asTemporary (queue.base (host.clock number) offset)))
    (committed : Committed folder (queue.base (host.clock number) offset) record host.tree after.tree)
    (room : queue.sequence.toNat + offset < 10 ^ 6)
    (short : payload.transmission.content.length < 2 ^ 64) :
    Waiting folder { queue.advance (offset + 1) with size := size } after
      (waiting ++ [(queue.base (host.clock number) offset, payload)]) := by
  have slash := slash_notMem_base h.valid (host.clock number) offset
  have follows := committed.follows h.serves.isFolder slash
  have links : ∀ name target, host.tree.lookup (folder ++ [name]) ≠ some (.link target) := by
    intro name target there
    cases h.files name _ there
  have fresh : ∀ entry ∈ waiting, asCommitted entry.1
      < asCommitted (queue.base (host.clock number) offset) :=
    fun entry mem => h.lower mem since room
  obtain ⟨modified, sets⟩ := committed.sets
  have numbers : (queue.advance (offset + 1)).sequence.toNat
      = queue.sequence.toNat + (offset + 1) := Fleet.toNat_add_ofNat (by omega)
  constructor
  · exact h.serves.follow later follows
  · exact h.reaches.follow later follows links
  · exact h.accepted
  · exact later.faultless h.faultless
  · exact ⟨later.clock ▸ h.timely.monotone, later.clock ▸ h.timely.range⟩
  · exact h.valid
  · intro name node found
    by_cases own : name = asCommitted (queue.base (host.clock number) offset)
    · rw [own, sets.lookup_self] at found
      cases found
      rfl
    · rw [sets.lookup_sibling own] at found
      exact h.files name node found
  · intro entry mem
    rcases List.mem_append.mp mem with old | last
    · rw [sets.lookup_sibling fun same => List.lt_irrefl _ (same ▸ fresh entry old)]
      exact h.there entry old
    · rw [List.mem_singleton.mp last]
      exact ⟨record, modified, encoded, sets.lookup_self⟩
  · intro base node found
    rw [List.map_append, List.mem_append]
    by_cases own : asCommitted base = asCommitted (queue.base (host.clock number) offset)
    · exact .inr (List.mem_singleton.mpr (FileNames.withExtension_injective own))
    · rw [sets.lookup_sibling own] at found
      exact .inl (h.only base node found)
  · intro entry mem
    rw [later.clock, numbers]
    rcases List.mem_append.mp mem with old | last
    · obtain ⟨earlier, sequence, sooner, lower, eq⟩ := h.drawn entry old
      exact ⟨earlier, sequence, Nat.lt_of_lt_of_le sooner later.calls, by omega, eq⟩
    · rw [List.mem_singleton.mp last]
      refine ⟨number, queue.sequence + UInt64.ofNat offset, before, ?_, rfl⟩
      rw [Fleet.toNat_add_ofNat (by omega)]
      omega
  · intro entry mem
    rcases List.mem_append.mp mem with old | last
    · exact h.fits entry old
    · rw [List.mem_singleton.mp last]
      exact ⟨fits, FileNames.fits_asCommitted slash fits⟩
  · intro entry mem
    rcases List.mem_append.mp mem with old | last
    · exact h.short entry old
    · rw [List.mem_singleton.mp last]
      exact short
  · rw [List.map_append, List.pairwise_append]
    refine ⟨h.ascending, List.pairwise_singleton _ _, ?_⟩
    intro a ha b hb
    obtain ⟨entry, mem, rfl⟩ := List.mem_map.mp ha
    rw [List.mem_singleton.mp hb]
    exact fresh entry mem
  · -- What has been added comes after the batch.
    obtain ⟨count, batch⟩ := h.batch
    refine ⟨min count waiting.length, ?_⟩
    rw [List.take_append_of_le_length (Nat.min_le_right _ _), ← List.take_eq_take_min]
    exact batch
  · exact h.limit
  · exact h.order
  · exact h.unclaimed

/-! ### Taking -/

/-- Where nothing waits nothing is claimed. -/
theorem next_nil (h : Waiting folder queue host []) :
    (queue.candidates.refreshed host.tree folder queue.directory).next
      = (none, { queue.candidates with batch := [] }) := by
  obtain ⟨count, eq, -⟩ := h.refreshed
  rw [eq, List.take_nil]
  rfl

/-- The record that has waited longest is claimed. -/
theorem next_cons {rest : List (Name × Payload)} (h : Waiting folder queue host (entry :: rest)) :
    ∃ count, (queue.candidates.refreshed host.tree folder queue.directory).next
      = (some ⟨FileNames.committedPath queue.directory entry.1, entry.1⟩,
        { queue.candidates with
          batch := (rest.take count).map (pathOf queue.directory)
          claimed := [entry.1] }) := by
  obtain ⟨nonempty, slash, text⟩ := h.base_eq List.mem_cons_self
  have name : FileNames.baseName? (pathOf queue.directory entry) = some entry.1 :=
    FileNames.baseName?_join _ nonempty slash FileNames.committed_mem_extensions text
  obtain ⟨count, eq, positive⟩ := h.refreshed
  obtain ⟨count, rfl⟩ := Nat.exists_eq_succ_of_ne_zero (positive (List.cons_ne_nil _ _))
  refine ⟨count, ?_⟩
  rw [eq, Candidates.next, List.take_succ_cons, List.map_cons]
  simp only [name, Candidates.isClaimed, h.unclaimed]
  rfl

/-- The record that has waited longest is given. -/
theorem take {rest : List (Name × Payload)} {content : Bytes}
    (h : Waiting folder queue host (entry :: rest)) (since : host.Later after)
    (took : Took folder entry.1 content host.tree after.tree) (size : UInt64) (count : Nat) :
    Waiting folder
      { queue with
        size := size
        candidates :=
          { queue.candidates with
            batch := (rest.take count).map (pathOf queue.directory)
            claimed := [] } }
      after rest := by
  obtain ⟨-, slash, -⟩ := h.base_eq List.mem_cons_self
  have follows := took.follows h.serves.isFolder slash
  have links : ∀ name target, host.tree.lookup (folder ++ [name]) ≠ some (.link target) := by
    intro name target there
    cases h.files name _ there
  have ascending := h.ascending
  rw [List.map_cons, List.pairwise_cons] at ascending
  have other : ∀ base, asCommitted base ≠ asCommitted entry.1 →
      after.tree.lookup (folder ++ [asCommitted base])
        = host.tree.lookup (folder ++ [asCommitted base]) :=
    fun base different => took.lookup_committed_other fun same =>
      different (congrArg asCommitted same)
  constructor
  · exact h.serves.follow since follows
  · exact h.reaches.follow since follows links
  · exact h.accepted
  · exact since.faultless h.faultless
  · exact ⟨since.clock ▸ h.timely.monotone, since.clock ▸ h.timely.range⟩
  · exact h.valid
  · intro name node found
    by_cases committed : name = asCommitted entry.1
    · rw [committed, took.lookup_committed] at found
      cases found
    · by_cases temporary : name = asTemporary entry.1
      · obtain ⟨node?, file, lookup⟩ := took.left
        rw [temporary, lookup, if_pos rfl] at found
        exact file node found
      · rw [took.lookup_other committed temporary] at found
        exact h.files name node found
  · intro waits mem
    have higher := ascending.1 (asCommitted waits.1) (List.mem_map.mpr ⟨waits, mem, rfl⟩)
    rw [other waits.1 fun same => List.lt_irrefl _ (same ▸ higher)]
    exact h.there waits (List.mem_cons_of_mem _ mem)
  · intro base node found
    by_cases own : asCommitted base = asCommitted entry.1
    · rw [own, took.lookup_committed] at found
      cases found
    · rw [other base own] at found
      rcases List.mem_cons.mp (h.only base node found) with same | mem
      · exact absurd (congrArg asCommitted same) own
      · exact mem
  · intro waits mem
    obtain ⟨number, sequence, before, lower, eq⟩ := h.drawn waits (List.mem_cons_of_mem _ mem)
    rw [since.clock]
    exact ⟨number, sequence, Nat.lt_of_lt_of_le before since.calls, lower, eq⟩
  · exact fun waits mem => h.fits waits (List.mem_cons_of_mem _ mem)
  · exact fun waits mem => h.short waits (List.mem_cons_of_mem _ mem)
  · exact ascending.2
  · exact ⟨count, rfl⟩
  · exact h.limit
  · exact h.order
  · rfl

/-- What is answered is the record that has waited longest, if any waits. -/
theorem dequeue (h : Waiting folder queue host waiting)
    {result : Except QueueError (Option Transmission)} (since : host.Later after)
    (outcome : DequeueOutcome queue folder host after (result, later)) :
    result = .ok (waiting.head?.map fun entry => entry.2.transmission) ∧
      Waiting folder later after waiting.tail := by
  cases outcome with
  | unlisted e same empty why => exact absurd h.reaches (why h.faultless.steady h.accepted)
  | nothing same unclaimed =>
    cases waiting with
    | nil =>
      rw [h.next_nil]
      have kept : Waiting folder queue after [] := h.quiet since
        (same ▸ Follows.refl _ _) (fun _ => .inl (by rw [same])) rfl rfl rfl (Nat.le_refl _)
      exact ⟨rfl, { kept with batch := ⟨0, rfl⟩ }⟩
    | cons entry rest =>
      obtain ⟨count, next⟩ := h.next_cons
      rw [next] at unclaimed
      cases unclaimed
  | claimed base result taken slash claim consumed =>
    cases waiting with
    | nil =>
      rw [h.next_nil] at claim
      cases claim
    | cons entry rest =>
      obtain ⟨count, next⟩ := h.next_cons
      rw [next] at claim consumed
      cases (Claim.mk.inj (Option.some.inj claim)).2
      obtain ⟨record, modified, encoded, there⟩ := h.there entry List.mem_cons_self
      obtain ⟨fits', fits⟩ := h.fits entry List.mem_cons_self
      have plain : host.tree.IsPlain folder (asTemporary entry.1) :=
        fun node found => h.files _ node found
      cases consumed with
      | failed e same why =>
        have gone := why h.faultless.steady h.reaches fits fits' fun found => by
          cases plain _ found
        rw [gone] at there
        cases there
      | took content _ took answer =>
        obtain ⟨modified', there'⟩ := took.there
        rw [there] at there'
        cases there'
        rcases answer with rfl | ⟨-, why⟩
        · constructor
          · rw [Stored.decoded,
              entry.2.decode_record encoded (h.short entry List.mem_cons_self)]
            rfl
          · have left := h.take since took
              (Saturating.sub queue.size (UInt64.ofNat record.length)) count
            simpa [release, Candidates.release] using left
        · exact absurd ⟨h.faultless.steady, keptInReach_of_plain there plain⟩ why

/-! ### Sessions -/

/-- Each answer keeps the order: what has been given, followed by what waits, is what has
been stored. -/
theorem answer (h : Waiting folder queue host waiting) {request : Request} {answer : Answer}
    (since : host.Later after) (served : Served queue folder host after request (answer, later))
    (room : ∀ count, count ≤ maxStagingAttempts →
      later.sequence = queue.sequence + UInt64.ofNat count →
      queue.sequence.toNat + count ≤ 10 ^ 6)
    (short : ∀ payload, request.payload? = some payload →
      payload.transmission.content.length < 2 ^ 64) :
    ∃ rest, Waiting folder later after rest ∧
      waiting.map (fun entry => entry.2.transmission)
          ++ ((request.stored? answer).map Payload.transmission).toList
        = answer.delivered?.toList ++ rest.map (fun entry => entry.2.transmission) := by
  have follows := served.follows h.serves h.valid
  have drawn : ∀ count, count ≤ maxStagingAttempts →
      later.sequence = queue.sequence + UInt64.ofNat count →
      queue.sequence.toNat ≤ later.sequence.toNat := by
    intro count bound eq
    have := room count bound eq
    rw [eq, Fleet.toNat_add_ofNat (by omega)]
    exact Nat.le_add_right _ _
  have quietly : Quiet folder host.tree after.tree → later.token = queue.token →
      later.directory = queue.directory → later.candidates = queue.candidates →
      queue.sequence.toNat ≤ later.sequence.toNat → request.stored? answer = none →
      answer.delivered? = none →
      ∃ rest, Waiting folder later after rest ∧
        waiting.map (fun entry => entry.2.transmission)
            ++ ((request.stored? answer).map Payload.transmission).toList
          = answer.delivered?.toList ++ rest.map (fun entry => entry.2.transmission) := by
    intro quiet token directory candidates numbers stored silent
    refine ⟨waiting, h.quiet since follows quiet token directory candidates numbers, ?_⟩
    rw [stored, silent]
    simp
  cases served with
  | storing payload _ result _ asked said silent outcome =>
    rcases outcome with ⟨⟨e, rfl⟩, rfl, same⟩ | ⟨record, encoded, outcome⟩
    · exact quietly (fun _ => .inl (by rw [same])) rfl rfl rfl (Nat.le_refl _) said silent
    cases outcome with
    | refused e count bound same =>
      exact quietly (fun _ => .inl (by rw [same])) rfl rfl rfl (drawn count bound rfl) said silent
    | abandoned e number offset bound begun =>
      exact quietly (quiet_of_begun begun) rfl rfl rfl (drawn _ bound rfl) said silent
    | stored number offset bound started before fits committed =>
      have room := room (offset + 1) bound rfl
      refine ⟨_, h.store since encoded started before fits committed (by omega)
        (short payload asked), ?_⟩
      rw [said, silent]
      simp [Except.toOption]
  | taking _ result _ asked silent said outcome =>
    obtain ⟨rfl, left⟩ := h.dequeue since outcome
    refine ⟨_, left, ?_⟩
    rw [silent, said]
    cases waiting <;> simp [Except.toOption]
  | other _ capacityMb asked takesNone silent silent' swept =>
    exact quietly (quiet_of_swept swept) rfl rfl rfl (Nat.le_refl _) silent silent'

/-- A session keeps the order. -/
theorem session (requests : List Request) (h : Waiting folder queue host waiting)
    (room : queue.sequence.toNat + (queue.session requests host).1.drawn queue.token ≤ 10 ^ 6)
    (short : ∀ payload ∈ (queue.session requests host).1.passed,
      payload.transmission.content.length < 2 ^ 64) :
    ∃ rest, Waiting folder (queue.session requests host).2.1 (queue.session requests host).2.2 rest ∧
      waiting.map (fun entry => entry.2.transmission)
          ++ (queue.session requests host).1.stored.map Payload.transmission
        = (queue.session requests host).1.delivered
          ++ rest.map (fun entry => entry.2.transmission) := by
  induction requests generalizing queue host waiting with
  | nil => exact ⟨waiting, h, by simp [Queue.session, History.stored, History.delivered]⟩
  | cons request requests ih =>
    have served := (meets_request request h.serves h.sound h.valid).run
    have since := Program.later_run (request.program queue) host
    simp only [Queue.session, History.passed_cons, History.stored_cons, History.delivered_cons,
      History.drawn_cons] at room short ⊢
    generalize (request.program queue).run host = outcome at served since room short ⊢
    obtain ⟨⟨answer, later⟩, after⟩ := outcome
    dsimp only at room short ⊢
    obtain ⟨token, -, -, count, bound, sequence⟩ := served.queue_eq h.serves h.valid h.sound
    have drawn : ∀ count, count ≤ maxStagingAttempts →
        later.sequence = queue.sequence + UInt64.ofNat count →
        Happening.drawn queue.token (.answered queue.token request answer
          (later.sequence - queue.sequence).toNat) = count :=
      fun _ bound sequence => Fleet.drawn_answered request answer bound sequence
    obtain ⟨rest, left, kept⟩ := h.answer since served
      (fun other bound sequence => by rw [drawn other bound sequence] at room; omega)
      (fun payload asked => short payload (List.mem_append_left _ (by simp [Happening.payload?, asked])))
    have room' : later.sequence.toNat
        + (later.session requests after).1.drawn later.token ≤ 10 ^ 6 := by
      rw [drawn count bound sequence] at room
      rw [token, sequence, Fleet.toNat_add_ofNat (by omega)]
      omega
    obtain ⟨last, ended, order⟩ := ih left room'
      fun payload mem => short payload (List.mem_append_right _ mem)
    refine ⟨last, ended, ?_⟩
    have stored : Happening.stored? (.answered queue.token request answer
        (later.sequence - queue.sequence).toNat) = request.stored? answer := rfl
    rw [stored, List.map_append, ← List.append_assoc, ← Option.toList_map, kept, List.append_assoc,
      order]
    exact (List.append_assoc _ _ _).symm

end Waiting

/-- Nothing waits in a folder that is empty. -/
theorem waiting_nil {options : Options} {fallback : Path} {token : ProcessToken}
    {start : Host} (offers : start.Offers folder)
    (empty : ∀ name, start.tree.lookup (folder ++ [name]) = none) (faultless : start.Faultless)
    (timely : start.Timely) (reaches : start.Reaches folder (options.directory.getD fallback))
    (order : options.refillOrder = .lowestNames) (valid : token.IsValid)
    (opened : (openWith options fallback token).run start = (.ok queue, host)) :
    Waiting folder queue host [] ∧ queue.token = token ∧ queue.sequence = 0 := by
  have plain : start.tree.IsPlain folder (checkName token) := by
    intro node there
    rw [empty] at there
    cases there
  have serves := offers.serves reaches
  have outcome := (meets_openWith serves reaches valid plain).run
  have since := Program.later_run (openWith options fallback token) start
  rw [opened] at outcome since
  cases outcome with
  | opened size sets reached accepted =>
    have nothing : ∀ name, host.tree.lookup (folder ++ [name]) = none := by
      intro name
      by_cases own : name = checkName token
      · rw [own, sets.lookup_self]
      · rw [sets.lookup_sibling own, empty]
    have follows := sets.follows (by simp [empty]) offers.isFolder (by simp)
    refine ⟨?_, rfl, rfl⟩
    exact {
      serves := serves.follow since follows
      reaches := reached
      accepted := accepted
      faultless := since.faultless faultless
      timely := ⟨since.clock ▸ timely.monotone, since.clock ▸ timely.range⟩
      valid := valid
      files := fun name node there => by simp [nothing] at there
      there := fun _ mem => nomatch mem
      only := fun base node there => by simp [nothing] at there
      drawn := by simp
      fits := by simp
      short := by simp
      ascending := List.Pairwise.nil
      batch := ⟨0, rfl⟩
      limit := Candidates.limit_pos _
      order := order
      unclaimed := rfl }

/-- On a folder that was empty, what has been given is always the beginning of what has
been stored, and the next record is the one that comes after it. -/
theorem first_in_first_out {options : Options} {fallback : Path} {token : ProcessToken}
    {start : Host} (offers : start.Offers folder)
    (empty : ∀ name, start.tree.lookup (folder ++ [name]) = none) (faultless : start.Faultless)
    (timely : start.Timely) (reaches : start.Reaches folder (options.directory.getD fallback))
    (order : options.refillOrder = .lowestNames) (valid : token.IsValid)
    (opened : (openWith options fallback token).run start = (.ok queue, host))
    (requests : List Request)
    (numbers : (queue.session requests host).1.drawn token ≤ 10 ^ 6)
    (lengths : ∀ payload ∈ (queue.session requests host).1.passed,
      payload.transmission.content.length < 2 ^ 63) :
    let ended := queue.session requests host
    let stored := ended.1.stored.map Payload.transmission
    let next := (ended.2.1.tryDequeue.run ended.2.2).1.1
    ended.1.delivered <+: stored ∧
      next = .ok (stored.drop ended.1.delivered.length).head? ∧
      (next = .ok none ↔ ended.1.delivered = stored) := by
  intro ended stored next
  obtain ⟨waiting, token, sequence⟩ :=
    waiting_nil offers empty faultless timely reaches order valid opened
  have room : queue.sequence.toNat + ended.1.drawn queue.token ≤ 10 ^ 6 := by
    rw [sequence, token]
    simpa using numbers
  obtain ⟨rest, left, kept⟩ := waiting.session requests room
    fun payload mem => Nat.lt_trans (lengths payload mem) (by decide)
  rw [List.map_nil, List.nil_append] at kept
  have answered := (meets_tryDequeue left.serves left.sound).run
  have since := Program.later_run ended.2.1.tryDequeue ended.2.2
  have given : next = .ok (rest.map fun entry => entry.2.transmission).head? := by
    rw [List.head?_map]
    exact (left.dequeue since answered).1
  have stored_eq : stored = ended.1.delivered ++ rest.map fun entry => entry.2.transmission := kept
  rw [given, stored_eq, List.drop_left]
  refine ⟨List.prefix_append _ _, rfl, ?_⟩
  cases rest <;> simp

theorem first_in_first_out_of_three :
    let start := Host.quiet FileTree.empty [] 1700000000123 (.start 0)
    let options := { Options.default with refillOrder := .lowestNames }
    ∃ queue host, (openWith options [Path.slash] ⟨"abcdefgh"⟩).run start = (.ok queue, host) ∧
      let ended := queue.session
        [.tryStore (.bare [1]), .tryTake, .tryStore (.bare [2]), .tryStore (.bare [3])] host
      ended.1.stored = [.bare [1], .bare [2], .bare [3]] ∧ ended.1.delivered = [.ofBytes [1]] ∧
      (ended.2.1.tryDequeue.run ended.2.2).1.1 = .ok (some (.ofBytes [2])) := by
  intro start options
  let queue : Queue := ⟨[Path.slash], ⟨"abcdefgh"⟩, 0, Limits.storage.choose none, 0,
    Candidates.start options.cacheSize .lowestNames, options.deleteRetry⟩
  have opened : (openWith options [Path.slash] ⟨"abcdefgh"⟩).run start = (.ok queue, _) :=
    Program.run_eq (by decide +kernel)
  have order := first_in_first_out (Host.offers_quiet _ _) (fun _ => FileTree.lookup_empty (by simp))
    (Host.faultless_quiet _ _ _ _) (Host.timely_quiet (by decide) _ _ _) (by decide +kernel) rfl
    (by decide) opened
    [.tryStore (.bare [1]), .tryTake, .tryStore (.bare [2]), .tryStore (.bare [3])]
    (by decide +kernel) (by decide +kernel)
  refine ⟨queue, _, opened, by decide +kernel, by decide +kernel, ?_⟩
  rw [order.2.1]
  decide +kernel

end Queue
end DiskQueue
