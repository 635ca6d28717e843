/-
Module: DiskQueue.Proofs.Tidiness
Purpose: Without faults a queue that is alone leaves no temporary file behind, so the names
  that it draws are free.
Trusted boundary: none
Main exports:
  FileTree.Vacant, FileTree.Tidy, Queue.Put, Queue.endsWith_commitRecord_of_vacant,
  Queue.Settled, Queue.Settled.session
-/
import DiskQueue.Proofs.AllOrNothing
import DiskQueue.Proofs.Staging
import DiskQueue.Proofs.Turns

namespace DiskQueue

open FileTree (Fits Holds Sets Moves Follows Committed Took Swept)
open FileNames (asCommitted asTemporary)

/-!
A queue draws its names with its token, which no entry of the folder has in its name at first. A
record that is stored keeps its final name only, and the temporary file of a record that is taken
is removed. So the first name that is drawn is free, however often its number was drawn before,
and storing needs a single attempt. All this holds as long as the path leads to the folder. A link
under a temporary name may be lost when a record is taken; then the path leads nowhere from there
on, and nothing is stored or taken any more.
-/

/-! ### Names that are free -/

namespace FileTree

variable {folder : Key} {token : ProcessToken} {tree before mid after : FileTree} {base : Name}
  {record : Bytes}

/-- No temporary name that can be drawn with the token belongs to an entry, and no final one to
anything but a file. -/
structure Vacant (folder : Key) (token : ProcessToken) (tree : FileTree) : Prop where
  temporary : ∀ millis sequence,
    tree.lookup (folder ++ [asTemporary (FileNames.generated millis token sequence)]) = none
  committed : ∀ millis sequence,
    tree.IsPlain folder (asCommitted (FileNames.generated millis token sequence))

/-- Names without the token are no names that can be drawn. -/
theorem vacant_of_unused
    (unused : ∀ name node, tree.lookup (folder ++ [name]) = some node →
      FileNames.contains token.bytes name = false) : tree.Vacant folder token := by
  have nothing : ∀ millis sequence extension,
      tree.lookup (folder ++ [FileNames.withExtension
        (FileNames.generated millis token sequence) extension]) = none := by
    intro millis sequence extension
    cases there : tree.lookup (folder ++ [FileNames.withExtension
        (FileNames.generated millis token sequence) extension]) with
    | none => rfl
    | some node =>
      cases (unused _ _ there).symm.trans (FileNames.contains_generated _ _ _ _)
  exact ⟨fun millis sequence => nothing millis sequence _,
    fun millis sequence => isPlain_of_free (nothing millis sequence _)⟩

/-- No temporary name has come to belong to an entry. -/
def Tidy (folder : Key) (before after : FileTree) : Prop :=
  ∀ base, before.lookup (folder ++ [asTemporary base]) = none →
    after.lookup (folder ++ [asTemporary base]) = none

theorem Tidy.refl (folder : Key) (tree : FileTree) : Tidy folder tree tree := fun _ free => free

theorem Committed.tidy (h : Committed folder base record before after) :
    Tidy folder before after := by
  intro other free
  obtain ⟨modified, sets⟩ := h.sets
  rw [sets.lookup_sibling (FileNames.committed_ne_temporary base other).symm, free]

theorem Swept.tidy (h : Swept folder before after) : Tidy folder before after := by
  intro base free
  rcases h (folder ++ [asTemporary base]) with same | ⟨gone, -⟩
  · exact same.trans free
  · exact gone

/-- A record that has been given a temporary name and is removed leaves no name behind. -/
theorem tidy_of_moves (moves : Moves folder (asCommitted base) (asTemporary base) before mid)
    (removed : Sets folder (asTemporary base) none mid after) : Tidy folder before after := by
  intro other free
  by_cases own : asTemporary other = asTemporary base
  · rw [own]
    exact removed.lookup_self
  · have apart := (FileNames.committed_ne_temporary base other).symm
    rw [removed.lookup_sibling own, moves, if_neg (by simpa using own),
      if_neg (by simpa using apart), free]

/-- What is left of directories and links when an entry changes that is none of them. -/
theorem Holds.sets {name : Name} {node? : Option Node} (holds : Holds before tree)
    (plain : before.IsPlain folder name) (sets : Sets folder name node? before after) :
    Holds after tree := by
  intro key node notFile found
  have there := holds key node notFile found
  rw [sets.lookup_other, there]
  rintro rfl
  exact notFile (plain _ there)

theorem Vacant.keep (h : before.Vacant folder token) (follows : Follows folder before after)
    (tidy : Tidy folder before after) : after.Vacant folder token :=
  ⟨fun millis sequence => tidy _ (h.temporary millis sequence),
    fun millis sequence => follows.isPlain (h.committed millis sequence)⟩

end FileTree

open FileTree (Vacant Tidy)

namespace Queue

variable {queue : Queue} {folder : Key} {host : Host} {base : Name}

/-! ### Storing without faults -/

/-- What storing a record comes to if nothing fails and its name is free: the name does not fit,
or the record is there. Either way one number is drawn. -/
inductive Put (queue : Queue) (folder : Key) (record : Bytes) (host : Host) (after : FileTree) :
    Except QueueError Path × Queue → Prop
  | unfit (e : IoError)
      (unfit : ¬ Fits queue.directory (asTemporary (queue.triedBase host 0)))
      (same : after = host.tree) :
      Put queue folder record host after (.error (.staging e), queue.advance 1)
  | stored (committed : Committed folder (queue.triedBase host 0) record host.tree after) :
      Put queue folder record host after
        (.ok (FileNames.committedPath queue.directory (queue.triedBase host 0)),
          { queue.advance 1 with size := queue.size + UInt64.ofNat record.length })

theorem Put.tidy {record : Bytes} {tree : FileTree} {outcome : Except QueueError Path × Queue}
    (h : queue.Put folder record host tree outcome) : Tidy folder host.tree tree := by
  cases h with
  | unfit e unfit same => exact same ▸ Tidy.refl _ _
  | stored committed => exact committed.tidy

theorem endsWith_commitRecord_of_vacant (record : Bytes)
    (serves : host.Serves folder queue.directory) (reaches : host.Reaches folder queue.directory)
    (faultless : host.Faultless) (valid : queue.token.IsValid)
    (vacant : host.tree.Vacant folder queue.token) :
    Program.EndsWith
      (fun _ outcome after => queue.Put folder record host after.tree outcome)
      (queue.commitRecord record) host := by
  have clear : host.FailsOnlyRenames := fun number op _ => faultless number op
  have unoccupied : ¬ queue.Occupied folder host 0 :=
    fun occupied => occupied.2 (vacant.temporary _ _)
  -- The numbers before the one that is drawn have names that are not free.
  have first {number : Nat} (occupied : ∀ earlier < number, queue.Occupied folder host earlier) :
      number = 0 := by
    by_contra positive
    exact unoccupied (occupied 0 (Nat.pos_of_ne_zero positive))
  apply (endsWith_commitRecord record serves reaches clear valid).mono
  rintro _ outcome after - ⟨clean, why⟩
  cases clean with
  | exhausted occupied => exact absurd (occupied 0 (by decide)) unoccupied
  | unfit number bound occupied unfit e tried same =>
    obtain rfl := first occupied
    exact .unfit e unfit same
  | uncommitted number bound occupied free e =>
    obtain ⟨number, there⟩ := why e rfl faultless.steady
    cases vacant.committed _ _ _ there
  | stored number bound occupied tried committed =>
    obtain rfl := first occupied
    exact .stored committed

/-! ### Taking without faults -/

/-- A record that is taken leaves no temporary file as long as the path leads to the folder. -/
theorem endsWith_consume_of_faultless (queue : Queue)
    (serves : host.Serves folder queue.directory) (faultless : host.Faultless)
    (slash : Path.slash ∉ base) (plain : host.tree.IsPlain folder (asCommitted base)) :
    Program.EndsWith
      (fun _ _ after => after.Reaches folder queue.directory → Tidy folder host.tree after.tree)
      (queue.consume ⟨FileNames.committedPath queue.directory base, base⟩) host := by
  have unchanged {tree : FileTree} (same : tree = host.tree) : Tidy folder host.tree tree :=
    same ▸ Tidy.refl folder host.tree
  apply Program.EndsWith.file (meets_statRecord serves slash plain)
  rintro reply found later - ⟨same, ⟨e, rfl⟩ | ⟨content, modified, rfl, there⟩⟩
  · exact Program.EndsWith.done fun _ => unchanged same
  apply Program.EndsWith.file
    (meets_renameRecord (serves.unchanged later same) slash (by rwa [same]))
  rintro reply renamed laterRenamed -
    (⟨sameAgain, e, rfl⟩ | ⟨rfl, reaches, fits, notDirectory, moves⟩)
  · exact Program.EndsWith.done fun _ => unchanged (sameAgain.trans same)
  rw [same] at notDirectory moves
  have later := later.trans laterRenamed
  have took := FileTree.took_of_moves there notDirectory moves
  have serves := serves.follow later (took.follows serves.isFolder slash)
  have staged : renamed.tree.lookup (folder ++ [asTemporary base])
      = some (.file content modified) := by
    rw [moves, if_pos rfl, there]
  have proper := FileNames.isProper_withExtension FileNames.temporary_mem_extensions slash
  apply (endsWith_finish queue serves proper staged).map
  rintro _ result after laterAfter ⟨failure, removals, -, -, -, removal, freed⟩ reached
  refine FileTree.tidy_of_moves moves ?_
  cases removal with
  | removed sets => exact sets
  | kept same =>
    have reaches := (laterAfter.reaches_iff same).mp reached
    exact freed ⟨later.faultless faultless, reaches, fits, content, modified, staged⟩

theorem endsWith_tryDequeue_of_faultless (serves : host.Serves folder queue.directory)
    (faultless : host.Faultless)
    (sound : queue.candidates.Sound folder queue.directory host.tree) :
    Program.EndsWith
      (fun _ _ after => after.Reaches folder queue.directory → Tidy folder host.tree after.tree)
      queue.tryDequeue host := by
  have looked : Program.Meets (fun _ => True) _ _ host :=
    Candidates.meets_take queue.candidates serves trivial
  apply ((Candidates.endsWith_take queue.candidates queue.directory host).and looked).bind
  rintro listing outcome taken later ⟨-, same, ⟨e, rfl, -⟩ | rfl⟩
  · exact Program.EndsWith.done fun _ => same ▸ Tidy.refl _ _
  cases claim : (queue.candidates.refreshed host.tree folder queue.directory).next.1 with
  | none => exact Program.EndsWith.done fun _ => same ▸ Tidy.refl _ _
  | some found =>
    obtain ⟨base, rfl, -, slash, plain, -⟩ := (sound.refreshed serves.wellFormed).next.1 _ claim
    have consuming := endsWith_consume_of_faultless { queue with
        candidates := (queue.candidates.refreshed host.tree folder queue.directory).next.2 }
      (serves.unchanged later same) (later.faultless faultless) slash (by rwa [same])
    rw [same] at consuming
    apply consuming.map
    exact fun made outcome after laterAfter tidy => tidy

/-! ### Requests without faults -/

theorem endsWith_tryStore_of_vacant (payload : Payload)
    (serves : host.Serves folder queue.directory) (reaches : host.Reaches folder queue.directory)
    (faultless : host.Faultless) (valid : queue.token.IsValid)
    (vacant : host.tree.Vacant folder queue.token) :
    Program.EndsWith (fun _ _ after => Tidy folder host.tree after.tree)
      (queue.tryStore payload.record) host := by
  unfold tryStore
  split
  · exact Program.EndsWith.done (Tidy.refl _ _)
  · cases payload.record with
    | error e => exact Program.EndsWith.done (Tidy.refl _ _)
    | ok record =>
      apply (endsWith_commitRecord_of_vacant record serves reaches faultless valid vacant).mono
      exact fun _ outcome after _ put => put.tidy

/-- No request leaves a temporary file, as long as the path leads to the folder. -/
theorem endsWith_request_of_faultless (request : Request)
    (serves : host.Serves folder queue.directory) (reaches : host.Reaches folder queue.directory)
    (faultless : host.Faultless) (valid : queue.token.IsValid)
    (sound : queue.candidates.Sound folder queue.directory host.tree)
    (vacant : host.tree.Vacant folder queue.token) :
    Program.EndsWith
      (fun _ _ after => after.Reaches folder queue.directory → Tidy folder host.tree after.tree)
      (request.program queue) host := by
  have storing (payload : Payload) :=
    endsWith_tryStore_of_vacant payload serves reaches faultless valid vacant
  have taking := endsWith_tryDequeue_of_faultless serves faultless sound
  have served := (meets_request request serves sound valid).run
  cases request with
  | tryStore payload =>
    rw [Request.program, payload.tryEnqueue_eq]
    apply (storing payload).bind
    rintro made ⟨result, left⟩ after later tidy
    exact Program.EndsWith.done fun _ => tidy
  | store payload =>
    rw [Request.program, payload.enqueue_eq, bind_assoc]
    apply (storing payload).bind
    rintro made ⟨result, left⟩ after later tidy
    cases result with
    | error e | ok path =>
      apply Program.EndsWith.aside (by simp)
      exact fun told _ _ same => Program.EndsWith.done fun _ => same ▸ tidy
  | tryTake =>
    apply taking.bind
    rintro made ⟨result, left⟩ after later tidy
    exact Program.EndsWith.done tidy
  | take =>
    rw [Request.program, dequeue, bind_assoc]
    apply taking.bind
    rintro made ⟨result, left⟩ after later tidy
    cases result with
    | ok found => exact Program.EndsWith.done tidy
    | error e =>
      apply Program.EndsWith.log
      intro told laterTold _ same
      refine Program.EndsWith.done fun reached => ?_
      rw [same]
      exact tidy ((laterTold.reaches_iff same).mp reached)
  | setCapacity | status | sweep =>
    unfold Program.EndsWith
    generalize Program.run _ _ = ended at served ⊢
    obtain ⟨outcome, after⟩ := ended
    cases served with
    | storing payload answer result later asked => cases asked
    | taking answer result later asked => cases asked
    | other answer capacityMb asked takesNone silent silent' swept => exact fun _ => swept.tidy

/-! ### A queue that is alone, without faults -/

/-- Opening a queue on a folder leaves nothing there that carries its token. -/
theorem unused_of_opened {start ready : Host} {options : Options} {fallback : Path}
    {token : ProcessToken} (offers : start.Offers folder)
    (reaches : start.Reaches folder (options.directory.getD fallback)) (valid : token.IsValid)
    (unused : ∀ name node, start.tree.lookup (folder ++ [name]) = some node →
      FileNames.contains token.bytes name = false)
    (opened : (openWith options fallback token).run start = (.ok queue, ready)) :
    ready.Offers folder ∧ ready.Reaches folder queue.directory ∧
      ∀ name node, ready.tree.lookup (folder ++ [name]) = some node →
        FileNames.contains token.bytes name = false := by
  have free : start.tree.lookup (folder ++ [checkName token]) = none := by
    cases there : start.tree.lookup (folder ++ [checkName token]) with
    | none => rfl
    | some node =>
      have carries := FileNames.contains_append (Utf8.encode ".write-check-") token.bytes []
      rw [List.append_nil] at carries
      cases carries.symm.trans (unused _ _ there)
  have plain := FileTree.isPlain_of_free free
  have outcome := (meets_openWith (offers.serves reaches) reaches valid plain).run
  obtain ⟨offers', reaches'⟩ := Host.Offers.of_opened offers opened reaches valid plain
  rw [opened] at outcome
  cases outcome with
  | opened size sets =>
    refine ⟨offers', reaches', ?_⟩
    intro name node there
    rw [sets] at there
    split at there
    · cases there
    · exact unused name node there

/-- A queue on a host without faults whose names are free as long as its path leads to the
folder. -/
structure Settled (folder : Key) (queue : Queue) (host : Host) : Prop where
  serves : host.Serves folder queue.directory
  sound : queue.candidates.Sound folder queue.directory host.tree
  valid : queue.token.IsValid
  faultless : host.Faultless
  vacant : host.Reaches folder queue.directory → host.tree.Vacant folder queue.token

namespace Settled

theorem served (h : queue.Settled folder host) (request : Request) :
    Served queue folder host ((request.program queue).run host).2 request
      ((request.program queue).run host).1 :=
  (meets_request request h.serves h.sound h.valid).run

theorem step (h : queue.Settled folder host) (request : Request) :
    ((request.program queue).run host).1.2.Settled folder ((request.program queue).run host).2 ∧
      ((request.program queue).run host).1.2.directory = queue.directory := by
  have served := h.served request
  have later := Program.later_run (request.program queue) host
  have tidy := fun reaches => endsWith_request_of_faultless request h.serves reaches h.faultless
    h.valid h.sound
  unfold Program.EndsWith at tidy
  generalize (request.program queue).run host = ended at served later tidy ⊢
  obtain ⟨⟨answer, left⟩, after⟩ := ended
  have follows := served.follows h.serves h.valid
  obtain ⟨token, directory, sound, -⟩ := served.queue_eq h.serves h.valid h.sound
  refine ⟨⟨?_, ?_, ?_, later.faultless h.faultless, ?_⟩, directory⟩
  · rw [directory]
    exact h.serves.follow later follows
  · rwa [directory]
  · rw [token]
    exact h.valid
  · intro reached
    rw [directory] at reached
    have reaches : host.Reaches folder queue.directory := by
      have found := follows.folder? reached
      rwa [later.directory] at found
    rw [token]
    exact (h.vacant reaches).keep follows (tidy reaches (h.vacant reaches) reached)

theorem session (h : queue.Settled folder host) (requests : List Request) :
    (queue.session requests host).2.1.Settled folder (queue.session requests host).2.2 ∧
      (queue.session requests host).2.1.directory = queue.directory := by
  induction requests generalizing queue host with
  | nil => exact ⟨h, rfl⟩
  | cons request rest ih =>
    obtain ⟨settled, directory⟩ := h.step request
    obtain ⟨settled', directory'⟩ := ih settled
    exact ⟨settled', directory'.trans directory⟩

/-- A queue that has been opened is settled if no entry of its folder carries its token, whether
the folder was there before or was made. -/
theorem of_opened {start ready : Host} {options : Options} {fallback : Path} {token : ProcessToken}
    (offers : ready.Offers folder) (faultless : ready.Faultless)
    (reaches : ready.Reaches folder queue.directory) (valid : token.IsValid)
    (unused : ∀ name node, ready.tree.lookup (folder ++ [name]) = some node →
      FileNames.contains token.bytes name = false)
    (opened : (openWith options fallback token).run start = (.ok queue, ready)) :
    queue.Settled folder ready := by
  obtain ⟨-, rfl, candidates, -⟩ := Queue.of_opened opened
  have sound := Candidates.sound_start folder queue.directory ready.tree options.cacheSize
    options.refillOrder
  exact ⟨offers.serves reaches, candidates ▸ sound, valid, faultless,
    fun _ => FileTree.vacant_of_unused unused⟩

/-! ### A path that stays -/

/-- A path that does not lead through temporary names of the folder leads to it after every
request. -/
theorem reachesAside (h : queue.Settled folder host)
    (aside : host.ReachesAside folder queue.directory) (request : Request) :
    ((request.program queue).run host).2.ReachesAside folder queue.directory := by
  have served := h.served request
  have later := Program.later_run (request.program queue) host
  generalize (request.program queue).run host = ended at served later ⊢
  obtain ⟨⟨answer, left⟩, after⟩ := ended
  have unchanged (same : after.tree = host.tree) : after.ReachesAside folder queue.directory :=
    aside.keep later fun tree holds => same ▸ holds
  cases served with
  | storing payload _ result _ asked said silent outcome =>
    rcases outcome with ⟨-, -, same⟩ | ⟨record, encoded, outcome⟩
    · exact unchanged same
    cases outcome with
    | refused e drawn bound same => exact unchanged same
    | abandoned e number offset bound begun =>
      obtain ⟨content, modified, -, sets⟩ := begun.sets
      exact aside.keep later fun tree holds => holds.sets (FileTree.isPlain_of_free begun.free) sets
    | stored number offset bound since before fits committed =>
      obtain ⟨modified, sets⟩ := committed.sets
      have plain := (h.vacant aside.reaches).committed (host.clock number)
        (queue.sequence + UInt64.ofNat offset)
      exact aside.keep later fun tree holds => holds.sets plain sets
  | taking _ result _ asked silent said outcome =>
    cases outcome with
    | unlisted e same => exact unchanged same
    | nothing same => exact unchanged same
    | claimed base _ taken slash claim consumed =>
      cases consumed with
      | failed e same => exact unchanged same
      | took content _ took => exact aside.took later took
  | other _ capacityMb asked takesNone silent silent' swept =>
    apply aside.keep later
    exact fun tree holds key node notFile there =>
      swept.lookup_of_kind (holds key node notFile there) notFile

theorem reachesAside_session (h : queue.Settled folder host)
    (aside : host.ReachesAside folder queue.directory) (requests : List Request) :
    (queue.session requests host).2.2.ReachesAside folder queue.directory := by
  induction requests generalizing queue host with
  | nil => exact aside
  | cons request rest ih =>
    obtain ⟨settled, directory⟩ := h.step request
    have reached := h.reachesAside aside request
    rw [← directory] at reached ⊢
    exact ih settled reached

end Settled

end Queue
end DiskQueue
