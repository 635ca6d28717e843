/-
Module: DiskQueue.Proofs.ByteCount
Purpose: The size that a queue keeps count of, against the bytes of the records in its
  folder, for any number of queues that share it.
Trusted boundary: none
Main exports:
  Fleet.Shift, Fleet.Step.shift, Fleet.sizes_of_run, Host.Measures, Fleet.size_tracks
-/
import DiskQueue.Proofs.Ledger
import DiskQueue.Proofs.RecordBytes

namespace DiskQueue

open FileTree (Fits Committed Took Quiet quiet_of_begun quiet_of_swept)
open FileNames (asCommitted asTemporary)

/-!
A queue counts what it stores and what it takes, each time by the bytes of one record, and
does not see what the others do. So its size stays at least as great as the folder as long
as nobody else stores, and at most as great as long as nobody else takes. Where the size
stops at zero the folder would have fallen further, which harms neither of the two.
-/

/-! ### Who is at work -/

/-- The token of the queue that is at work. -/
def Happening.worker : Happening → ProcessToken
  | .opened token _ => token
  | .refused token => token
  | .answered token _ _ _ => token
  | .closed token => token
  | .cutOpening token => token
  | .cut token _ => token

/-- Nobody but one queue stores. -/
def History.StoresAlone (token : ProcessToken) (history : History) : Prop :=
  ∀ happening ∈ history, happening.payload? ≠ none → happening.worker = token

/-- Nobody but one queue takes. -/
def History.TakesAlone (token : ProcessToken) (history : History) : Prop :=
  ∀ happening ∈ history, happening.takes = true → happening.worker = token

instance (token : ProcessToken) (history : History) : Decidable (history.StoresAlone token) :=
  inferInstanceAs (Decidable (∀ happening ∈ history, _ → _))

instance (token : ProcessToken) (history : History) : Decidable (history.TakesAlone token) :=
  inferInstanceAs (Decidable (∀ happening ∈ history, _ → _))

namespace Fleet

/-- What a piece of work does to the bytes of a folder and to the size of a queue. Both
stay, or a record is stored or taken, and the queue counts that if it was at work. -/
inductive Shift (token : ProcessToken) (happening : Happening) (bytes size bytes' size' : Nat) :
    Prop
  | kept (still : bytes' = bytes) (same : size' = size)
  | stored (length : Nat) (stores : happening.payload? ≠ none) (more : bytes' = bytes + length)
      (counts : size' = if happening.worker = token then size + length else size)
  | taken (length : Nat) (takes : happening.takes = true) (less : bytes' + length = bytes)
      (counts : size' = if happening.worker = token then size - length else size)

variable {token other : ProcessToken} {happening : Happening} {bytes size bytes' size' : Nat}

/-- A queue that was not at work counts nothing. -/
theorem Shift.idle (h : Shift token happening bytes size bytes' size')
    (idle : happening.worker ≠ other) (kept : Nat) :
    Shift other happening bytes kept bytes' kept := by
  cases h with
  | kept still => exact .kept still rfl
  | stored length stores more => exact .stored length stores more (if_neg idle).symm
  | taken length takes less => exact .taken length takes less (if_neg idle).symm

theorem Shift.bytes_le (h : Shift token happening bytes size bytes' size')
    (alone : happening.payload? ≠ none → happening.worker = token) (le : bytes ≤ size) :
    bytes' ≤ size' := by
  cases h with
  | kept still same => rwa [still, same]
  | stored length stores more counts =>
    rw [if_pos (alone stores)] at counts
    omega
  | taken length takes less counts => split at counts <;> omega

theorem Shift.le_bytes (h : Shift token happening bytes size bytes' size')
    (alone : happening.takes = true → happening.worker = token) (le : size ≤ bytes) :
    size' ≤ bytes' := by
  cases h with
  | kept still same => rwa [still, same]
  | stored length stores more counts => split at counts <;> omega
  | taken length takes less counts =>
    rw [if_pos (alone takes)] at counts
    omega

end Fleet

/-! ### Capacities -/

/-- Nothing is granted beyond the greatest value. -/
theorem Limits.closest_le_maximum (limits : Limits) (value : Int64) :
    limits.closest value ≤ limits.maximum := by
  unfold closest
  split
  · exact UInt64.le_trans limits.minimum_le_default limits.default_le_maximum
  · split
    · exact UInt64.le_refl _
    · rename_i within
      exact UInt64.not_lt.mp within

theorem Limits.choose_le_maximum (limits : Limits) (text : Option String) :
    limits.choose text ≤ limits.maximum := by
  unfold choose grant
  split
  · exact limits.closest_le_maximum _
  · exact limits.default_le_maximum

namespace Queue

variable {queue later : Queue} {folder : Key} {host after : Host} {request : Request}
  {answer : Answer}

/-- The capacity is one that can be asked for. -/
def Bounded (queue : Queue) : Prop := queue.capacityMb ≤ Limits.storage.maximum

instance (queue : Queue) : Decidable queue.Bounded :=
  inferInstanceAs (Decidable (queue.capacityMb ≤ Limits.storage.maximum))

/-- A queue that is not full counts what it stores without overflow. -/
theorem toNat_size_add (bounded : queue.Bounded) (room : queue.isFull = false) {length : Nat}
    (short : length + 2 ^ 30 < 2 ^ 64) :
    (queue.size + UInt64.ofNat length).toNat = queue.size.toNat + length := by
  have most : queue.capacityMb.toNat ≤ 1000 := UInt64.le_iff_toNat_le.mp bounded
  have below : queue.size.toNat < queue.capacityBytes.toNat := by
    rw [isFull, decide_eq_false_iff_not, UInt64.not_le] at room
    exact UInt64.lt_iff_toNat_lt.mp room
  have capacity : queue.capacityBytes.toNat ≤ queue.capacityMb.toNat * 1048576 := by
    rw [capacityBytes, Saturating.toNat_mul]
    exact Nat.min_le_left _ _
  apply Fleet.toNat_add_ofNat
  omega

theorem tryStore_of_isFull (full : queue.isFull = true) (record : Except IoError Bytes) :
    queue.tryStore record = pure (.error (.capacityExceeded queue.capacityMb), queue) := by
  unfold tryStore
  rw [if_pos full]

theorem isFull_of_stored {payload : Payload}
    (run : (request.program queue).run host = ((answer, later), after))
    (stored : request.stored? answer = some payload) : queue.isFull = false := by
  by_contra full
  rw [Bool.not_eq_false] at full
  cases request with
  | tryStore payload =>
    rw [Request.program, payload.tryEnqueue_eq, tryStore_of_isFull full] at run
    cases run
    cases stored
  | store payload =>
    rw [Request.program, payload.enqueue_eq, tryStore_of_isFull full] at run
    cases run
    cases stored
  | _ => cases answer <;> cases stored

/-- A request that touches no record leaves the capacity, or sets it to what can be asked
for. -/
theorem bounded_of_other (bounded : queue.Bounded) (asked : request.payload? = none)
    (takesNone : request.takes = false)
    (run : (request.program queue).run host = ((answer, later), after)) : later.Bounded := by
  cases request with
  | setCapacity megabytes =>
    rw [Request.program, setCapacity, bind_assoc, Program.run_andThen] at run
    cases run
    exact Limits.storage.closest_le_maximum megabytes
  | status =>
    rw [Request.program, Program.run_andThen] at run
    cases run
    exact bounded
  | sweep minAgeMs =>
    rw [Request.program, Program.run_andThen] at run
    cases run
    exact bounded
  | tryStore payload => cases asked
  | store payload => cases asked
  | tryTake => cases takesNone
  | take => cases takesNone

theorem Served.bounded (bounded : queue.Bounded)
    (run : (request.program queue).run host = ((answer, later), after))
    (h : Served queue folder host after request (answer, later)) : later.Bounded := by
  cases h with
  | storing payload _ result _ asked said silent outcome =>
    rcases outcome with ⟨-, rfl, -⟩ | ⟨bytes, -, outcome⟩
    · exact bounded
    · cases outcome <;> exact bounded
  | taking _ result _ asked silent said outcome =>
    cases outcome with
    | unlisted => exact bounded
    | nothing => exact bounded
    | claimed base _ taken slash claim consumed => cases consumed <;> exact bounded
  | other _ capacityMb asked takesNone => exact bounded_of_other bounded asked takesNone run

end Queue

/-! ### Sizes at the opening -/

/-- When a queue was opened it could ask about every record: no question failed because of
a fault, and the system takes the path of every record. -/
structure Host.Measures (folder : Key) (directory : Path) (host after : Host) : Prop where
  answers : host.Answers after
  fits : ∀ name ∈ Stored.listed after.tree folder FileNames.committed, Fits directory name

theorem Queue.OpenOutcome.size_eq {options : Queue.Options} {fallback : Path}
    {token : ProcessToken} {folder : Key} {host after : Host} {queue : Queue}
    (h : Queue.OpenOutcome options fallback token folder host after (.ok queue)) :
    queue.token = token ∧ queue.size.toNat ≤ after.tree.recordBytes folder ∧
      (after.tree.recordBytes folder < 2 ^ 64 →
        host.Measures folder (options.directory.getD fallback) after →
        queue.size.toNat = after.tree.recordBytes folder) := by
  cases h with
  | opened size sets reaches accepted most measured =>
    refine ⟨rfl, most, ?_⟩
    intro small measures
    have total := measured measures.answers fun name listed =>
      ⟨measures.fits name listed,
        Nat.lt_of_le_of_lt (Stored.length_le_totalLength listed) small⟩
    refine total.trans (Nat.min_eq_left ?_)
    exact Nat.le_sub_one_of_lt small

/-! ### Records and their bytes -/

namespace Ledger

variable {folder : Key} {start : Host} {tree before after : FileTree} {ledger : Ledger}
  {history : History} {happening : Happening} {base : Name} {content record : Bytes}
  {modified : Int}

theorem length_record_add_lt {payload : Payload}
    (allowed : History.Allowed folder start.tree history) (passed : payload ∈ history.passed)
    (encoded : payload.record = .ok record) : record.length + 2 ^ 30 < 2 ^ 64 := by
  have short := allowed.lengths payload passed
  have length := payload.length_record encoded
  simp only [Record.maxHeaderLength] at length
  omega

/-- No record is longer than a word can tell. -/
theorem Books.length_lt (h : Books folder start history tree ledger)
    (allowed : History.Allowed folder start.tree history)
    (small : start.tree.recordBytes folder < 2 ^ 64) (nonempty : base ≠ [])
    (slash : Path.slash ∉ base)
    (there : tree.lookup (folder ++ [asCommitted base]) = some (.file content modified)) :
    content.length < 2 ^ 64 := by
  rcases (h.explains.record there).2 with ⟨payload, written, encoded⟩ | ⟨-, old⟩
  · have short := length_record_add_lt allowed (h.written_mem_passed _ written) encoded
    omega
  · exact Nat.lt_of_le_of_lt (FileTree.length_le_recordBytes nonempty slash old) small

/-- A record under a name that has just been drawn adds its bytes. -/
theorem Books.recordBytes_eq {queue : Queue} {offset : Nat} {millis : Int}
    (h : Books folder start history before ledger)
    (allowed : History.Allowed folder start.tree (history ++ [happening]))
    (known : queue.token ∈ history.tokens) (path : queue.directory ∈ history.directories)
    (number : queue.sequence.toNat = history.drawn queue.token)
    (counted : offset < happening.drawn queue.token)
    (fits : Fits queue.directory (asTemporary (queue.base millis offset)))
    (committed : Committed folder (queue.base millis offset) record before after) :
    after.recordBytes folder = before.recordBytes folder + record.length := by
  obtain ⟨new, apart, -⟩ := h.fresh allowed known path number counted millis fits
  have free := h.explains.lookup_of_new new (apart _ FileNames.committed_mem_extensions)
  have exchange := committed.recordBytes_add (FileNames.generated_ne_nil _ _ _)
    (Queue.slash_notMem_base (allowed.init.valid _ known) millis offset)
  rwa [Stored.length, free, Nat.add_zero] at exchange

end Ledger

namespace Fleet

variable {folder : Key} {start : Host} {history : History} {happening : Happening}
  {ledger : Ledger} {fleet last : Fleet}

/-! ### One piece of work -/

/-- A queue counts what it is asked to do. -/
theorem shift_answered {queue later : Queue} {request : Request} {answer : Answer}
    {host after : Host} {count : Nat} (books : Ledger.Books folder start history host.tree ledger)
    (allowed : History.Allowed folder start.tree
      (history ++ [.answered queue.token request answer count]))
    (small : start.tree.recordBytes folder < 2 ^ 64)
    (serves : host.Serves folder queue.directory)
    (sound : queue.candidates.Sound folder queue.directory host.tree)
    (wf : after.tree.WellFormed)
    (known : queue.token ∈ history.tokens) (path : queue.directory ∈ history.directories)
    (number : queue.sequence.toNat = history.drawn queue.token) (bounded : queue.Bounded)
    (counts : ∀ drawn, drawn ≤ Queue.maxStagingAttempts →
      later.sequence = queue.sequence + UInt64.ofNat drawn → count = drawn)
    (run : (request.program queue).run host = ((answer, later), after))
    (served : Queue.Served queue folder host after request (answer, later)) :
    Shift queue.token (.answered queue.token request answer count)
      (host.tree.recordBytes folder) queue.size.toNat (after.tree.recordBytes folder)
      later.size.toNat := by
  have unchanged : Quiet folder host.tree after.tree → later.size = queue.size →
      Shift queue.token (.answered queue.token request answer count)
        (host.tree.recordBytes folder) queue.size.toNat (after.tree.recordBytes folder)
        later.size.toNat := by
    intro quiet size
    exact .kept (quiet.recordBytes_eq serves.wellFormed wf) (congrArg UInt64.toNat size)
  have same : after.tree = host.tree → Quiet folder host.tree after.tree :=
    fun same _ => .inl (by rw [same])
  cases served with
  | storing payload _ result _ asked said silent outcome =>
    rcases outcome with ⟨-, rfl, still⟩ | ⟨record, encoded, outcome⟩
    · exact unchanged (same still) rfl
    cases outcome with
    | refused e drawn bound still => exact unchanged (same still) rfl
    | abandoned e number offset bound begun => exact unchanged (quiet_of_begun begun) rfl
    | stored number' offset bound since before fits committed =>
      have counted : count = offset + 1 := counts _ bound rfl
      have bytes := books.recordBytes_eq allowed known path number
        (by rw [Happening.drawn, if_pos rfl, counted]; exact Nat.lt_succ_self _) fits committed
      have room := Queue.isFull_of_stored run said
      have passed : payload ∈ History.passed
          (history ++ [.answered queue.token request answer count]) := by
        simp [Happening.payload?, asked]
      have short := Ledger.length_record_add_lt allowed passed encoded
      have counted := queue.toNat_size_add bounded room short
      exact .stored record.length (by simp [Happening.payload?, asked]) bytes
        (counted.trans (if_pos rfl).symm)
  | taking _ result _ asked silent said outcome =>
    cases outcome with
    | unlisted e still => exact unchanged (same still) rfl
    | nothing still => exact unchanged (same still) rfl
    | claimed base _ taken slash claim consumed =>
      cases consumed with
      | failed e still => exact unchanged (same still) rfl
      | took content _ took =>
        obtain ⟨own, eq, nonempty, -⟩ := (sound.refreshed serves.wellFormed).next.1 _ claim
        cases (Claim.mk.inj eq).2
        obtain ⟨modified, there⟩ := took.there
        have bytes := took.recordBytes_add serves.wellFormed wf nonempty slash
        have short := books.length_lt allowed.init small nonempty slash there
        have counted : (Saturating.sub queue.size (UInt64.ofNat content.length)).toNat
            = queue.size.toNat - content.length := by
          rw [Saturating.toNat_sub, UInt64.toNat_ofNat_of_lt' short]
        exact .taken content.length asked bytes (counted.trans (if_pos rfl).symm)
  | other _ capacityMb asked takesNone silent silent' swept =>
    exact unchanged (quiet_of_swept swept) rfl

/-- What is cut off concerns only the folder: its queue is gone. -/
theorem shift_cut {queue : Queue} {request : Request} {before tree : FileTree}
    {other : ProcessToken} (books : Ledger.Books folder start history before ledger)
    (allowed : History.Allowed folder start.tree (history ++ [.cut queue.token request]))
    (wf : before.WellFormed) (wf' : tree.WellFormed)
    (known : queue.token ∈ history.tokens) (path : queue.directory ∈ history.directories)
    (number : queue.sequence.toNat = history.drawn queue.token) (idle : queue.token ≠ other)
    (left : Queue.RequestCut queue folder request before tree) (size : Nat) :
    Shift other (.cut queue.token request) (before.recordBytes folder) size
      (tree.recordBytes folder) size := by
  have unchanged : Quiet folder before tree →
      Shift other (.cut queue.token request) (before.recordBytes folder) size
        (tree.recordBytes folder) size :=
    fun quiet => .kept (quiet.recordBytes_eq wf wf') rfl
  unfold Queue.RequestCut at left
  split at left
  · rename_i payload asked
    rcases left with rfl | ⟨record, encoded, rfl | ⟨millis, offset, bound, begun | ⟨fits, there⟩⟩⟩
    · exact .kept rfl rfl
    · exact .kept rfl rfl
    · exact unchanged (quiet_of_begun begun)
    · have bytes := books.recordBytes_eq allowed known path number
        (by rwa [Happening.drawn, if_pos rfl]) fits there
      exact .stored record.length (by simp [Happening.payload?, asked]) bytes (if_neg idle).symm
  · rcases left with swept | ⟨takes, rfl | ⟨base, content, slash, took⟩⟩
    · exact unchanged (quiet_of_swept swept)
    · exact .kept rfl rfl
    · have fewer := took.recordBytes_le wf wf' slash
      exact .taken (before.recordBytes folder - tree.recordBytes folder) takes
        (Nat.add_sub_cancel' fewer) (if_neg idle).symm

/-- Capacities stay what can be asked for. -/
theorem bounded_of_step (crew : Crew folder start history fleet)
    (allowed : History.Allowed folder start.tree (history ++ [happening]))
    (plain : ∀ token, happening.token? = some token →
      fleet.host.tree.IsPlain folder (Queue.checkName token))
    (step : Step folder fleet happening last) (bounded : ∀ queue ∈ fleet.queues, queue.Bounded) :
    ∀ queue ∈ last.queues, queue.Bounded := by
  cases step with
  | opened first after queues options fallback token queue reaches run =>
    have valid : token.IsValid := allowed.valid token (by simp [Happening.token?])
    have outcome := (Queue.meets_openWith (crew.offers.serves reaches) reaches valid
      (plain token rfl)).run
    rw [run] at outcome
    refine List.forall_mem_cons.mpr ⟨?_, bounded⟩
    cases outcome with
    | opened => exact Limits.storage.choose_le_maximum options.capacity
  | answered first after front behind queue later request answer run =>
    obtain ⟨serves, sound, valid, -⟩ := crew.member allowed.init.valid
    have served := (Queue.meets_request request serves sound valid).run
    rw [run] at served
    intro other mem
    rcases List.mem_append.mp mem with mem | mem
    · exact bounded other (List.mem_append_left _ mem)
    · rcases List.mem_cons.mp mem with rfl | mem
      · exact served.bounded (bounded queue (by simp)) run
      · exact bounded other (by simp [mem])
  | refused => exact bounded
  | cutOpening => exact bounded
  | closed first front behind queue =>
    exact fun other mem => bounded other (mem_of_mem_others mem)
  | cut first after front behind queue =>
    exact fun other mem => bounded other (mem_of_mem_others mem)

/-- Every piece of work shifts the bytes of the folder and the size of each queue that was
open before. -/
theorem Step.shift (step : Step folder fleet happening last)
    (crew : Crew folder start history fleet)
    (books : Ledger.Books folder start history fleet.host.tree ledger)
    (allowed : History.Allowed folder start.tree (history ++ [happening]))
    (small : start.tree.recordBytes folder < 2 ^ 64)
    (bounded : ∀ queue ∈ fleet.queues, queue.Bounded) (wf : last.host.tree.WellFormed)
    {left : Queue} (mem : left ∈ last.queues) (old : happening.token? ≠ some left.token) :
    ∃ queue ∈ fleet.queues, queue.token = left.token ∧
      Shift left.token happening (fleet.host.tree.recordBytes folder) queue.size.toNat
        (last.host.tree.recordBytes folder) left.size.toNat := by
  have before := allowed.init
  have wellFormed := crew.offers.wellFormed
  have valid : ∀ token, happening.token? = some token → token.IsValid :=
    fun token opens => allowed.valid token (by simp [opens])
  have plain : ∀ token, happening.token? = some token →
      fleet.host.tree.IsPlain folder (Queue.checkName token) :=
    fun token opens => books.plain allowed opens
  -- A queue that has done nothing is the same, while no record has changed.
  have watches : Quiet folder fleet.host.tree last.host.tree → left ∈ fleet.queues →
      ∃ queue ∈ fleet.queues, queue.token = left.token ∧
        Shift left.token happening (fleet.host.tree.recordBytes folder) queue.size.toNat
          (last.host.tree.recordBytes folder) left.size.toNat :=
    fun quiet there => ⟨left, there, rfl, .kept (quiet.recordBytes_eq wellFormed wf) rfl⟩
  cases step with
  | opened first after queues options fallback token queue reaches run =>
    have outcome := (Queue.meets_openWith (crew.offers.serves reaches) reaches (valid token rfl)
      (plain token rfl)).run
    rw [run] at outcome
    rcases List.mem_cons.mp mem with rfl | there
    · cases outcome with
      | opened => exact absurd rfl old
    · exact watches (outcome.quiet (valid token rfl)) there
  | refused first after queues options fallback token e reaches run =>
    have outcome := (Queue.meets_openWith (crew.offers.serves reaches) reaches (valid token rfl)
      (plain token rfl)).run
    rw [run] at outcome
    exact watches (outcome.quiet (valid token rfl)) mem
  | answered first after front behind queue later request answer run =>
    obtain ⟨serves, sound, validToken, known, path, number⟩ := crew.member before.valid
    obtain ⟨apart, -⟩ := crew.apart
    have served := (Queue.meets_request request serves sound validToken).run
    rw [run] at served
    have shift := shift_answered books allowed small serves sound wf known path number
      (bounded queue (by simp)) (fun drawn bound sequence => by
        have counted := drawn_answered request answer bound sequence
        rwa [Happening.drawn, if_pos rfl] at counted) run served
    rcases List.mem_cons.mp (List.perm_middle.subset mem) with rfl | there
    · obtain ⟨token, -⟩ := served.queue_eq serves validToken sound
      exact ⟨queue, by simp, token.symm, token ▸ shift⟩
    · exact ⟨left, mem_of_mem_others there, rfl, shift.idle (apart left there).symm _⟩
  | closed first front behind queue =>
    exact watches (fun _ => .inl rfl) (mem_of_mem_others mem)
  | cutOpening first after queues options fallback token reaches stopped =>
    have checked := (Queue.meets_openWith (crew.offers.serves reaches) reaches (valid token rfl)
      (plain token rfl)).cut stopped
    exact watches (Queue.quiet_of_checked (valid token rfl) checked) mem
  | cut first after front behind queue request stopped =>
    obtain ⟨serves, sound, validToken, known, path, number⟩ := crew.member before.valid
    obtain ⟨apart, -⟩ := crew.apart
    have stops := (Queue.meets_request request serves sound validToken).cut stopped
    exact ⟨left, mem_of_mem_others mem, rfl, shift_cut books allowed wellFormed wf known path number
      (apart left mem).symm stops _⟩

/-! ### Runs -/

variable {options : Queue.Options} {fallback : Path} {token : ProcessToken} {queue left : Queue}
  {queues : List Queue} {host ready : Host} {earlier later : History}

theorem bounded_of_run (offers : start.Offers folder)
    (run : Run folder ⟨start, []⟩ history fleet)
    (allowed : History.Allowed folder start.tree history) :
    ∀ queue ∈ fleet.queues, queue.Bounded := by
  induction run with
  | start => simp
  | step mid after history happening run step ih =>
    obtain ⟨crew, ledger, books, -⟩ := Ledger.exists_books offers run allowed.init
    exact bounded_of_step crew allowed (fun token opens => books.plain allowed opens) step
      (ih allowed.init)

/-- The size of a queue that is open stays on its side of the bytes of the folder, from the
moment of its opening. -/
theorem sizes_of_run {directory : Path} (offers : start.Offers folder)
    (small : start.tree.recordBytes folder < 2 ^ 64)
    (opened : Run folder ⟨start, []⟩ (earlier ++ [.opened token directory])
      ⟨ready, queue :: queues⟩)
    (named : queue.token = token) (rest : Run folder ⟨ready, queue :: queues⟩ later fleet)
    (allowed : History.Allowed folder start.tree (earlier ++ [.opened token directory] ++ later))
    (mem : left ∈ fleet.queues) (own : left.token = token) :
    (later.StoresAlone token → ready.tree.recordBytes folder ≤ queue.size.toNat →
      fleet.host.tree.recordBytes folder ≤ left.size.toNat) ∧
    (later.TakesAlone token → queue.size.toNat ≤ ready.tree.recordBytes folder →
      left.size.toNat ≤ fleet.host.tree.recordBytes folder) := by
  induction rest generalizing left with
  | start =>
    rw [List.append_nil] at allowed
    obtain ⟨crew, -⟩ := Ledger.exists_books offers opened allowed
    have live := crew.live
    rw [List.map_cons, List.nodup_cons, named, ← own] at live
    rcases List.mem_cons.mp mem with rfl | there
    · exact ⟨fun _ le => le, fun _ le => le⟩
    · exact absurd (List.mem_map_of_mem there) live.1
  | step mid last history happening run step ih =>
    rw [← List.append_assoc] at allowed
    obtain ⟨crew, ledger, books, -⟩ :=
      Ledger.exists_books offers (opened.trans run) allowed.init
    obtain ⟨crew', -⟩ :=
      Ledger.exists_books offers ((opened.trans run).step _ _ _ _ _ step) allowed
    have bounded := bounded_of_run offers (opened.trans run) allowed.init
    have old : happening.token? ≠ some left.token := by
      intro again
      have distinct := allowed.distinct
      rw [History.tokens_append, List.nodup_append] at distinct
      refine distinct.2.2 token ?_ token ?_ rfl
      · simp [History.tokens, Happening.token?]
      · simp [again, own]
    obtain ⟨queue, there, same, shift⟩ := step.shift crew books allowed small bounded
      crew'.offers.wellFormed mem old
    obtain ⟨atLeast, atMost⟩ := ih allowed.init there (same.trans own)
    rw [own] at shift
    constructor
    · intro alone le
      exact shift.bytes_le (alone happening (by simp))
        (atLeast (fun other mem => alone other (List.mem_append_left _ mem)) le)
    · intro alone le
      exact shift.le_bytes (alone happening (by simp))
        (atMost (fun other mem => alone other (List.mem_append_left _ mem)) le)

/-- A queue that is opened in a run starts with the bytes of the records that it could ask
about. The opening leaves the records as they are. -/
theorem size_of_opened (offers : start.Offers folder)
    (run : Run folder ⟨start, []⟩ history fleet)
    (reaches : fleet.host.Reaches folder (options.directory.getD fallback))
    (opened : (Queue.openWith options fallback token).run fleet.host = (.ok queue, ready))
    (allowed : History.Allowed folder start.tree
      (history ++ [.opened token (options.directory.getD fallback)])) :
    queue.token = token ∧
    ready.tree.recordBytes folder = fleet.host.tree.recordBytes folder ∧
    queue.size.toNat ≤ ready.tree.recordBytes folder ∧
    (ready.tree.recordBytes folder < 2 ^ 64 →
      fleet.host.Measures folder (options.directory.getD fallback) ready →
      queue.size.toNat = ready.tree.recordBytes folder) := by
  obtain ⟨crew, ledger, books, -⟩ := Ledger.exists_books offers run allowed.init
  obtain ⟨crew', -⟩ := Ledger.exists_books offers
    (run.step _ _ _ _ _ (.opened _ _ _ _ _ _ _ reaches opened)) allowed
  have valid : token.IsValid := allowed.valid token (by simp [Happening.token?])
  have outcome := (Queue.meets_openWith (crew.offers.serves reaches) reaches valid
    (books.plain allowed rfl)).run
  rw [opened] at outcome
  obtain ⟨named, most, exact⟩ := outcome.size_eq
  have still := (outcome.quiet valid).recordBytes_eq crew.offers.wellFormed
    crew'.offers.wellFormed
  exact ⟨named, still, most, exact⟩

/-- The size of a queue does not exceed the bytes of the records in its folder while nobody
else takes. If it could ask about every record when it was opened, it does not fall behind
them while nobody else stores; alone on its folder it has them exactly, as a queue has that
is opened anew. -/
theorem size_tracks (offers : start.Offers folder)
    (small : start.tree.recordBytes folder < 2 ^ 64)
    (before : Run folder ⟨start, []⟩ earlier ⟨host, queues⟩)
    (reaches : host.Reaches folder (options.directory.getD fallback))
    (opened : (Queue.openWith options fallback token).run host = (.ok queue, ready))
    (smallThen : ready.tree.recordBytes folder < 2 ^ 64)
    (rest : Run folder ⟨ready, queue :: queues⟩ later fleet)
    (allowed : History.Allowed folder start.tree
      (earlier ++ [.opened token (options.directory.getD fallback)] ++ later))
    (mem : left ∈ fleet.queues) (own : left.token = token) :
    (later.TakesAlone token → left.size.toNat ≤ fleet.host.tree.recordBytes folder) ∧
    (host.Measures folder (options.directory.getD fallback) ready →
      later.StoresAlone token →
      fleet.host.tree.recordBytes folder ≤ left.size.toNat ∧
      (later.TakesAlone token →
        left.size.toNat = fleet.host.tree.recordBytes folder ∧
        ∀ (chosen : Queue.Options) (otherwise : Path) (anew : ProcessToken) (fresh : Queue)
          (after : Host),
          fleet.host.Reaches folder (chosen.directory.getD otherwise) →
          History.Allowed folder start.tree
            (earlier ++ [.opened token (options.directory.getD fallback)] ++ later
              ++ [.opened anew (chosen.directory.getD otherwise)]) →
          (Queue.openWith chosen otherwise anew).run fleet.host = (.ok fresh, after) →
          fleet.host.Measures folder (chosen.directory.getD otherwise) after →
          fresh.size = left.size)) := by
  obtain ⟨named, -, most, exact⟩ := size_of_opened offers before reaches opened allowed.of_append
  have opening := before.step _ _ _ _ _ (.opened _ _ _ _ _ _ _ reaches opened)
  obtain ⟨atLeast, atMost⟩ := sizes_of_run offers small opening named rest allowed mem own
  refine ⟨fun takes => atMost takes most, ?_⟩
  intro measures stores
  have above := atLeast stores (Nat.le_of_eq (exact smallThen measures).symm)
  refine ⟨above, ?_⟩
  intro takes
  have equal := Nat.le_antisymm (atMost takes most) above
  refine ⟨equal, ?_⟩
  intro chosen otherwise anew fresh after reached allowed' opened' measures'
  obtain ⟨-, still, -, exact'⟩ :=
    size_of_opened offers (opening.trans rest) reached opened' allowed'
  rw [still, ← equal] at exact'
  exact UInt64.toNat_inj.mp (exact' left.size.toNat_lt measures')

/-- Where no fault strikes, every question is answered after a run as well. -/
theorem Run.answers (offers : start.Offers folder) (faultless : start.Faultless)
    (run : Run folder ⟨start, []⟩ history ⟨host, queues⟩)
    (allowed : history.Allowed folder start.tree) (after : Host) : host.Answers after := by
  obtain ⟨crew, -⟩ := Ledger.exists_books offers run allowed
  exact (crew.later.faultless faultless).answers after

/-- A queue is opened where another one has stored a record and stays open. It takes that
record and stores one of its own: its size is that of the folder and of a queue that is opened
anew, and the size of the other one is not. -/
theorem size_tracks_of_three :
    let start := Host.quiet FileTree.empty [] 1700000000123 (.start 0)
    ∃ (earlier later : History) (host ready after : Host) (fleet : Fleet)
        (other queue left fresh : Queue),
      Run [] ⟨start, []⟩ earlier ⟨host, [other]⟩ ∧
      (Queue.openWith .default [Path.slash] ⟨"abcdefgh"⟩).run host = (.ok queue, ready) ∧
      Run [] ⟨ready, [queue, other]⟩ later fleet ∧ left ∈ fleet.queues ∧
      earlier.stored = [.bare [1]] ∧ later.stored = [.bare [2, 3]] ∧
      later.delivered = [.ofBytes [1]] ∧ fleet.host.tree.recordBytes [] = 38 ∧
      left.size.toNat = fleet.host.tree.recordBytes [] ∧
      (∃ idle ∈ fleet.queues, idle.size.toNat = 37) ∧
      (Queue.openWith .default [Path.slash] ⟨"hhhhhhhh"⟩).run fleet.host = (.ok fresh, after) ∧
      fresh.size = left.size := by
  intro start
  let queue (token : ProcessToken) (size : UInt64) : Queue := .ofDefaults [Path.slash] token size
  let opening (token : ProcessToken) (host : Host) : Except QueueError Queue × Host :=
    (Queue.openWith .default [Path.slash] token).run host
  let begun := (opening ⟨"22222222"⟩ start).2
  let stored := (queue ⟨"22222222"⟩ 0).session [.tryStore (.bare [1])] begun
  let host := stored.2.2
  let ready := (opening ⟨"abcdefgh"⟩ host).2
  let served := (queue ⟨"abcdefgh"⟩ 37).session [.take, .store (.bare [2, 3])] ready
  let asked := stored.2.1.session [.status, .setCapacity 5] served.2.2
  let fleet : Fleet := ⟨asked.2.2, [served.2.1, asked.2.1]⟩
  let after := (opening ⟨"hhhhhhhh"⟩ fleet.host).2
  have first : opening ⟨"22222222"⟩ start = (.ok (queue ⟨"22222222"⟩ 0), begun) :=
    Program.run_eq (by decide +kernel)
  have second : opening ⟨"abcdefgh"⟩ host = (.ok (queue ⟨"abcdefgh"⟩ 37), ready) :=
    Program.run_eq (by decide +kernel)
  have third : opening ⟨"hhhhhhhh"⟩ fleet.host = (.ok (queue ⟨"hhhhhhhh"⟩ 38), after) :=
    Program.run_eq (by decide +kernel)
  have before : Run [] ⟨start, []⟩ _ ⟨host, [stored.2.1]⟩ :=
    run_session [] [] _ ((Run.start _).step _ _ _ _ _
      (.opened _ _ _ _ _ _ _ (by decide +kernel) first))
  have rest : Run [] ⟨ready, [queue ⟨"abcdefgh"⟩ 37, stored.2.1]⟩ _ fleet :=
    run_session [served.2.1] [] _ (run_session [] [stored.2.1] _ (Run.start _))
  have reaches : host.Reaches [] (Queue.Options.default.directory.getD [Path.slash]) := by
    decide +kernel
  have offers : start.Offers [] := Host.offers_quiet _ _
  have faultless : start.Faultless := Host.faultless_quiet _ _ _ _
  have allowed : History.Allowed [] start.tree
      (([] ++ [.opened ⟨"22222222"⟩ [Path.slash]] ++ stored.1)
        ++ [.opened ⟨"abcdefgh"⟩ [Path.slash]] ++ ([] ++ served.1 ++ asked.1)
        ++ [.opened ⟨"hhhhhhhh"⟩ [Path.slash]]) :=
    History.allowed_of_empty (by decide +kernel) (by decide +kernel) (by decide +kernel)
      (by decide +kernel)
  -- The opening and the one after the run could ask about the record that they found.
  have measures : host.Measures [] [Path.slash] ready := by
    refine ⟨Run.answers offers faultless before allowed.of_append.of_append.of_append ready, ?_⟩
    have one : Stored.listed ready.tree [] FileNames.committed
        = [asCommitted (FileNames.generated 1700000000123 ⟨"22222222"⟩ 0)] := by decide +kernel
    rw [one, List.forall_mem_singleton]
    exact ⟨by decide +kernel, by decide +kernel⟩
  have measures' : fleet.host.Measures [] [Path.slash] after := by
    have run := (before.step _ _ _ _ _ (.opened _ _ _ _ _ _ _ reaches second)).trans rest
    refine ⟨Run.answers offers faultless run allowed.init after, ?_⟩
    have one : Stored.listed after.tree [] FileNames.committed
        = [asCommitted (FileNames.generated 1700000000123 ⟨"abcdefgh"⟩ 0)] := by decide +kernel
    rw [one, List.forall_mem_singleton]
    exact ⟨by decide +kernel, by decide +kernel⟩
  have mem : served.2.1 ∈ fleet.queues := List.mem_cons_self
  have tracks := size_tracks offers (by decide +kernel) before reaches second
    (by decide +kernel) rest allowed.init mem (by decide +kernel)
  obtain ⟨-, exactly⟩ := tracks.2 measures (by decide +kernel)
  obtain ⟨equal, anew⟩ := exactly (by decide +kernel)
  have same := anew .default [Path.slash] _ _ after (by decide +kernel) allowed third measures'
  have idle : asked.2.1 ∈ fleet.queues := List.mem_cons_of_mem _ List.mem_cons_self
  exact ⟨_, _, host, ready, after, fleet, _, _, served.2.1, _, before, second, rest, mem,
    by decide +kernel, by decide +kernel, by decide +kernel, by decide +kernel, equal,
    ⟨asked.2.1, idle, by decide +kernel⟩, third, same⟩

/-- A record whose path is too long for the system is not counted at the opening, although
it is there and no fault strikes. -/
theorem size_short_of_long_path :
    let start := Host.quiet
      (FileTree.empty.insert [asCommitted (List.replicate 251 0x61)] (.file [1, 2, 3, 4, 5] 0))
      [] 1700000000123 (.start 0)
    let directory : Path := List.replicate 3900 Path.slash
    let ready := ((Queue.openWith .default directory ⟨"abcdefgh"⟩).run start).2
    start.Offers [] ∧ start.Faultless ∧
      History.Allowed [] start.tree [.opened ⟨"abcdefgh"⟩ directory] ∧
      ∃ queue, Run [] ⟨start, []⟩ [.opened ⟨"abcdefgh"⟩ directory] ⟨ready, [queue]⟩ ∧
        queue.size.toNat = 0 ∧ ready.tree.recordBytes [] = 5 := by
  intro start directory ready
  let queue : Queue := .ofDefaults directory ⟨"abcdefgh"⟩ 0
  have placed := FileTree.sets_insert FileTree.empty [] (asCommitted (List.replicate 251 0x61))
    (.file [1, 2, 3, 4, 5] 0)
  have proper : (asCommitted (List.replicate 251 0x61)).IsProper :=
    FileNames.isProper_withExtension FileNames.committed_mem_extensions (by decide)
  have nothing : ∀ name, FileTree.empty.lookup ([] ++ [name]) = none :=
    fun name => FileTree.lookup_empty (List.cons_ne_nil name [])
  have follows := placed.follows (by rw [nothing]; nofun) rfl
    (by rintro node ⟨⟩; exact ⟨rfl, proper⟩)
  have offers : start.Offers [] :=
    (Host.offers_quiet 1700000000123 (.start 0)).follow ⟨rfl, rfl, rfl, Nat.le_refl _⟩ follows
  have allowed : History.Allowed [] start.tree [.opened ⟨"abcdefgh"⟩ directory] := by
    refine ⟨by decide, by decide, ?_, by decide, by decide⟩
    intro token mem name node there
    have same : name = asCommitted (List.replicate 251 0x61) := by
      by_contra other
      cases ((nothing name).symm.trans (placed.lookup_sibling other).symm).trans there
    have own : token = ⟨"abcdefgh"⟩ := by simpa [History.tokens, Happening.token?] using mem
    rw [same, own]
    decide +kernel
  have ran : ((Queue.openWith .default directory ⟨"abcdefgh"⟩).run start).1 = .ok queue ∧
      ready.tree.recordBytes [] = 5 := by decide +kernel
  refine ⟨offers, fun _ _ => rfl, allowed, queue, ?_, rfl, ran.2⟩
  exact (Run.start _).step _ _ _ _ _
    (.opened _ _ _ .default directory _ _ (by decide +kernel) (Program.run_eq ran.1))

end Fleet
end DiskQueue
