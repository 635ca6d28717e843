/-
Module: DiskQueue.Proofs.Batches
Purpose: The batch of a queue that is alone holds files that are there, in the order of their
  names.
Trusted boundary: none
Main exports:
  FileTree.Took.mem_listed_iff, Candidates.Orderly, Queue.Popped, Queue.DequeueOutcome.popped,
  Queue.orderly_session
-/
import DiskQueue.Proofs.DrainOrder
import DiskQueue.Proofs.Fleet

namespace DiskQueue

open FileTree (Fits Took Committed Quiet quiet_of_begun quiet_of_swept)
open FileNames (asCommitted asTemporary)

/-!
A batch is a list of paths from an earlier look at the folder. Files that are stored later
are not in it, and as long as nobody else takes any, no file of the batch is gone before its
turn. An attempt to take a record takes the first name out of the batch even if it fails; the
file is then found again by a later batch.
-/

variable {folder : Key} {directory : Path} {host after : Host} {base name : Name}

/-! ### Files that are listed before and after -/

namespace FileTree

variable {before after : FileTree} {content : Bytes}

/-- A file that is listed is listed as long as it is there. -/
theorem mem_listed_of_lookup (wf : before.WellFormed)
    (mem : name ∈ Stored.listed before folder FileNames.committed)
    (same : ∀ base, name = asCommitted base →
      after.lookup (folder ++ [name]) = before.lookup (folder ++ [name])) :
    name ∈ Stored.listed after folder FileNames.committed := by
  obtain ⟨has, -⟩ := Stored.mem_listed.mp mem
  obtain ⟨base, -, -, rfl, content, modified, there⟩ := Stored.exists_base wf mem
  exact Stored.mem_listed.mpr ⟨has, content, modified, (same base rfl).trans there⟩

theorem Quiet.mem_listed (quiet : Quiet folder before after) (wf : before.WellFormed)
    (mem : name ∈ Stored.listed before folder FileNames.committed) :
    name ∈ Stored.listed after folder FileNames.committed := by
  apply mem_listed_of_lookup wf mem
  rintro base rfl
  exact quiet.lookup_committed base

theorem Committed.mem_listed (committed : Committed folder base content before after)
    (mem : name ∈ Stored.listed before folder FileNames.committed) :
    name ∈ Stored.listed after folder FileNames.committed := by
  obtain ⟨modified, sets⟩ := committed.sets
  obtain ⟨has, found, since, there⟩ := Stored.mem_listed.mp mem
  by_cases own : name = asCommitted base
  · subst own
    exact Stored.mem_listed.mpr ⟨has, content, modified, sets.lookup_self⟩
  · exact Stored.mem_listed.mpr ⟨has, found, since, (sets.lookup_sibling own).trans there⟩

/-- A record that is taken is listed no longer, and the others are. -/
theorem Took.mem_listed_iff (took : Took folder base content before after) (wf : before.WellFormed)
    (wf' : after.WellFormed) :
    name ∈ Stored.listed after folder FileNames.committed ↔
      name ≠ asCommitted base ∧ name ∈ Stored.listed before folder FileNames.committed := by
  constructor
  · intro mem
    have other : name ≠ asCommitted base := by
      rintro rfl
      obtain ⟨-, found, modified, there⟩ := Stored.mem_listed.mp mem
      cases took.lookup_committed.symm.trans there
    refine ⟨other, mem_listed_of_lookup wf' mem ?_⟩
    rintro own rfl
    exact (took.lookup_other other (FileNames.committed_ne_temporary _ _)).symm
  · rintro ⟨other, mem⟩
    apply mem_listed_of_lookup wf mem
    rintro own rfl
    exact took.lookup_other other (FileNames.committed_ne_temporary _ _)

end FileTree

/-! ### Batches of files that are there -/

namespace Candidates

variable {tree after : FileTree} {size : UInt64} {order : RefillOrder} {candidates : Candidates}

/-- The batch holds files that are there, in the order of their names. -/
def Orderly (size : UInt64) (order : RefillOrder) (folder : Key) (directory : Path)
    (tree : FileTree) (candidates : Candidates) : Prop :=
  ∃ names, candidates = holding size order directory names ∧ names.Pairwise (· < ·) ∧
    ∀ name ∈ names, name ∈ Stored.listed tree folder FileNames.committed

theorem orderly_start (folder : Key) (directory : Path) (tree : FileTree) (size : UInt64)
    (order : RefillOrder) : (start size order).Orderly size order folder directory tree :=
  ⟨[], rfl, List.Pairwise.nil, List.forall_mem_nil _⟩

theorem Orderly.keep (h : candidates.Orderly size order folder directory tree)
    (kept : ∀ name ∈ Stored.listed tree folder FileNames.committed,
      name ∈ Stored.listed after folder FileNames.committed) :
    candidates.Orderly size order folder directory after := by
  obtain ⟨names, eq, ascending, listed⟩ := h
  exact ⟨names, eq, ascending, fun name mem => kept name (listed name mem)⟩

theorem Orderly.sound (h : candidates.Orderly size order folder directory tree)
    (wf : tree.WellFormed) : candidates.Sound folder directory tree := by
  obtain ⟨names, rfl, -, listed⟩ := h
  refine ⟨rfl, ?_⟩
  intro path mem
  obtain ⟨name, held, rfl⟩ := List.mem_map.mp mem
  obtain ⟨base, nonempty, slash, rfl, content, modified, there⟩ :=
    Stored.exists_base wf (listed name held)
  refine ⟨base, nonempty, slash, rfl, ?_⟩
  intro node found
  cases there.symm.trans found
  rfl

theorem Orderly.refreshed (h : candidates.Orderly size order folder directory tree)
    (wf : tree.WellFormed) :
    (candidates.refreshed tree folder directory).Orderly size order folder directory tree := by
  obtain ⟨names, rfl, ascending, listed⟩ := h
  by_cases empty : names = []
  · subst empty
    obtain ⟨all, perm, inOrder⟩ :=
      exists_ascending (Stored.nodup_listed tree folder FileNames.committed)
    have kept := retained_sublist (max size.toNat 1) order all
    rw [refreshed_holding_nil wf perm inOrder]
    exact ⟨_, rfl, inOrder.sublist kept, fun name mem => perm.mem_iff.mp (kept.subset mem)⟩
  · rw [refreshed_holding_of_ne_nil empty]
    exact ⟨names, rfl, ascending, listed⟩

end Candidates

namespace Queue

variable {queue later : Queue} {size : UInt64} {order : RefillOrder}

/-- What an attempt to take a record comes to, told by the names of the batch before and after:
its first name is gone, whether or not the file of that name is taken. -/
inductive Popped (queue : Queue) (folder : Key) (host after : Host) :
    List Name → Except QueueError (Option Transmission) → List Name → Prop
  | nothing (same : after.tree = host.tree) : Popped queue folder host after [] (.ok none) []
  | passed (base : Name) (rest : List Name) (broken : ¬ Utf8.isText base = true)
      (same : after.tree = host.tree) :
      Popped queue folder host after (asCommitted base :: rest) (.ok none) rest
  | failed (e : QueueError) (base : Name) (rest : List Name) (same : after.tree = host.tree)
      (why : host.Steady → host.Reaches folder queue.directory →
        Fits queue.directory (asCommitted base) → Fits queue.directory (asTemporary base) →
        host.tree.lookup (folder ++ [asTemporary base]) ≠ some .directory →
        host.tree.lookup (folder ++ [asCommitted base]) = none) :
      Popped queue folder host after (asCommitted base :: rest) (.error e) rest
  | took (base : Name) (rest : List Name) (content : Bytes)
      (result : Except QueueError (Option Transmission))
      (took : Took folder base content host.tree after.tree)
      (answer : result = (Stored.decoded content).map some ∨ (∃ e, result = .error e) ∧
        ¬ (host.Steady ∧ KeptInReach host folder queue.directory base))
      (fits : Fits queue.directory (asCommitted base)) :
      Popped queue folder host after (asCommitted base :: rest) result rest

/-- The first name of a batch that is not empty is tried. -/
theorem DequeueOutcome.popped {result : Except QueueError (Option Transmission)}
    {names : List Name} (serves : host.Serves folder queue.directory)
    (batch : queue.candidates.refreshed host.tree folder queue.directory
      = .holding size order queue.directory names)
    (listed : ∀ name ∈ names, name ∈ Stored.listed host.tree folder FileNames.committed)
    (h : DequeueOutcome queue folder host after (result, later)) :
    (later = queue ∧ after.tree = host.tree ∧
        (host.Steady → FileTree.refusal? queue.directory = none →
          ¬ host.Reaches folder queue.directory) ∧ result.toOption = none) ∨
      ∃ left, later.candidates = .holding size order queue.directory left ∧
        Popped queue folder host after names result left := by
  cases h with
  | unlisted e same empty why => exact .inl ⟨rfl, same, why, rfl⟩
  | nothing same unclaimed =>
    rw [batch] at unclaimed ⊢
    cases names with
    | nil => exact .inr ⟨[], rfl, .nothing same⟩
    | cons name rest =>
      obtain ⟨base, nonempty, slash, rfl, -⟩ :=
        Stored.exists_base serves.wellFormed (listed name List.mem_cons_self)
      rw [Candidates.next_holding nonempty slash] at unclaimed ⊢
      split at unclaimed
      · cases unclaimed
      · rename_i broken
        rw [if_neg broken]
        exact .inr ⟨rest, rfl, .passed base rest broken same⟩
  | claimed base result taken slash claim consumed =>
    rw [batch] at claim consumed
    cases names with
    | nil => cases claim
    | cons name rest =>
      obtain ⟨own, nonempty, slash, rfl, -⟩ :=
        Stored.exists_base serves.wellFormed (listed name List.mem_cons_self)
      rw [Candidates.next_holding nonempty slash] at claim consumed
      split at claim
      · rename_i text
        rw [if_pos text] at consumed
        cases (Claim.mk.inj (Option.some.inj claim)).2
        cases consumed with
        | failed e same why =>
          exact .inr ⟨rest, Candidates.release_holding base, .failed e base rest same why⟩
        | took content _ took answer fits =>
          exact .inr ⟨rest, Candidates.release_holding base,
            .took base rest content _ took answer fits⟩
      · cases claim

/-- A file whose path the system does not take is not taken, and nothing is given. -/
theorem DequeueOutcome.withheld {result : Except QueueError (Option Transmission)}
    {names : List Name} (serves : host.Serves folder queue.directory)
    (batch : queue.candidates.refreshed host.tree folder queue.directory
      = .holding size order queue.directory (asCommitted base :: names))
    (listed : ∀ name ∈ asCommitted base :: names,
      name ∈ Stored.listed host.tree folder FileNames.committed)
    (unfit : ¬ Fits queue.directory (asCommitted base))
    (h : DequeueOutcome queue folder host after (result, later)) :
    after.tree = host.tree ∧ result.toOption.join = none := by
  rcases h.popped serves batch listed with ⟨-, same, -, failed⟩ | ⟨left, -, popped⟩
  · exact ⟨same, by rw [failed]; rfl⟩
  generalize due : asCommitted base :: names = batch at popped
  cases popped with
  | nothing same => exact ⟨same, rfl⟩
  | passed other rest broken same => exact ⟨same, rfl⟩
  | failed e other rest same => exact ⟨same, rfl⟩
  | took other rest content result took answer fits =>
    cases FileNames.withExtension_injective (List.cons.inj due).1
    exact absurd fits unfit

theorem DequeueOutcome.orderly {result : Except QueueError (Option Transmission)}
    (serves : host.Serves folder queue.directory) (since : host.Later after)
    (orderly : queue.candidates.Orderly size order folder queue.directory host.tree)
    (h : DequeueOutcome queue folder host after (result, later)) :
    later.candidates.Orderly size order folder queue.directory after.tree := by
  have wf := serves.wellFormed
  have wf' := (serves.follow since (h.follows serves.isFolder)).wellFormed
  obtain ⟨names, batch, ascending, listed⟩ := orderly.refreshed wf
  rcases h.popped serves batch listed with ⟨rfl, same, -⟩ | ⟨left, holds, popped⟩
  · exact orderly.keep fun name mem => by rwa [same]
  have others : ∀ {name rest}, names = name :: rest → after.tree = host.tree →
      ∀ name ∈ rest, name ∈ Stored.listed after.tree folder FileNames.committed := by
    rintro name rest rfl same other mem
    rw [same]
    exact listed other (List.mem_cons_of_mem name mem)
  cases popped with
  | nothing same => exact ⟨[], holds, ascending, List.forall_mem_nil _⟩
  | passed base rest broken same => exact ⟨left, holds, ascending.of_cons, others rfl same⟩
  | failed e base rest same => exact ⟨left, holds, ascending.of_cons, others rfl same⟩
  | took base rest content result took =>
    refine ⟨left, holds, ascending.of_cons, ?_⟩
    intro name mem
    have higher := List.rel_of_pairwise_cons ascending mem
    refine (took.mem_listed_iff wf wf').mpr ⟨?_, listed name (List.mem_cons_of_mem _ mem)⟩
    rintro rfl
    exact List.lt_irrefl _ higher

theorem Served.orderly {request : Request} {answer : Answer}
    (serves : host.Serves folder queue.directory) (since : host.Later after)
    (orderly : queue.candidates.Orderly size order folder queue.directory host.tree)
    (h : Served queue folder host after request (answer, later)) :
    later.candidates.Orderly size order folder queue.directory after.tree := by
  have wf := serves.wellFormed
  cases h with
  | storing payload answer result later asked said silent outcome =>
    rcases outcome with ⟨-, rfl, same⟩ | ⟨record, -, outcome⟩
    · exact orderly.keep fun name mem => by rwa [same]
    cases outcome with
    | refused e count bound same => exact orderly.keep fun name mem => by rwa [same]
    | abandoned e number offset bound begun =>
      exact orderly.keep fun name => (quiet_of_begun begun).mem_listed wf
    | stored number offset bound started before fits committed =>
      exact orderly.keep fun name => committed.mem_listed
  | taking answer result later asked silent said outcome =>
    exact outcome.orderly serves since orderly
  | other answer capacityMb asked takesNone silent silent' swept =>
    exact orderly.keep fun name => (quiet_of_swept swept).mem_listed wf

/-- In a session the batch holds files that are there at every point. -/
theorem orderly_session (requests : List Request) (valid : queue.token.IsValid)
    (serves : host.Serves folder queue.directory)
    (orderly : queue.candidates.Orderly size order folder queue.directory host.tree) :
    (queue.session requests host).2.1.directory = queue.directory ∧
      (queue.session requests host).2.2.Serves folder queue.directory ∧
      (queue.session requests host).2.1.candidates.Orderly size order folder queue.directory
        (queue.session requests host).2.2.tree := by
  induction requests generalizing queue host with
  | nil => exact ⟨rfl, serves, orderly⟩
  | cons request requests ih =>
    have sound := orderly.sound serves.wellFormed
    have served := (meets_request request serves sound valid).run
    have since := Program.later_run (request.program queue) host
    simp only [session]
    generalize (request.program queue).run host = outcome at served since ⊢
    obtain ⟨⟨answer, later⟩, after⟩ := outcome
    obtain ⟨token, directory, -⟩ := served.queue_eq serves valid sound
    have ended := ih (token ▸ valid) (directory ▸ serves.follow since (served.follows serves valid))
      (directory ▸ served.orderly serves since orderly)
    rwa [directory] at ended

end Queue

end DiskQueue
