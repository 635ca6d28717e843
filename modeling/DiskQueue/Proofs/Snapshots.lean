/-
Module: DiskQueue.Proofs.Snapshots
Purpose: A batch is a look at a directory that is handed out name by name, whatever becomes of
  the directory and of the claims in the meantime.
Trusted boundary: none
Main exports:
  Host.Shows, Host.Lists, Candidates.Taking, Candidates.Taking.Hands, Candidates.Snapshot,
  Candidates.Move, Candidates.takings, Candidates.Latest, Candidates.HandedOut,
  Candidates.handed_out
-/
import DiskQueue.Proofs.Claiming
import DiskQueue.Proofs.DrainOrder
import DiskQueue.Proofs.Renaming

namespace DiskQueue

/-!
Every call for a claim takes the first name out of the batch, whether or not it becomes a
claim. So what has been taken since the last look at the directory and what is left are
together what was seen then. The account is kept from one call to the next, and a call that
finds the batch empty starts a new one.

The next name of a batch stands first.
-/

/-- A name is that of a regular file of a record in the directory. -/
def Host.Shows (host : Host) (directory : Path) (name : Name) : Prop :=
  ∃ folder, host.Reaches folder directory ∧
    FileNames.hasExtension name FileNames.committed = true ∧
      ∃ content modified, host.tree.lookup (folder ++ [name]) = some (.file content modified)

/-- A directory is there, and listing it does not fail at this moment. -/
def Host.Lists (host : Host) (directory : Path) : Prop :=
  host.fault host.calls (.list directory) = none ∧ FileTree.refusal? directory = none ∧
    ∃ folder, host.Reaches folder directory

namespace Stored

variable {directory : Path} {extension : Name} {host : Host} {found : List Path}

theorem run_paths (directory : Path) (extension : Name) (host : Host) :
    ((paths directory extension).run host).1 = (host.operate (.list directory)).1.map
      fun entries => (select extension entries).map directory.join := by
  have listing : (Program.list directory).run host = host.operate (.list directory) := rfl
  rw [paths, Program.run_andThen, names, Program.run_andThen, listing]
  cases (host.operate (.list directory)).1 <;> rfl

/-- The paths that are found are those of the files of the folder, if it can be listed. -/
theorem paths_eq_ok_iff : ((paths directory extension).run host).1 = .ok found ↔
    host.Lists directory ∧ ∃ folder, host.Reaches folder directory ∧
      found = (listed host.tree folder extension).map directory.join := by
  rw [run_paths, Host.operate]
  cases fault : host.fault host.calls (.list directory) with
  | some e => simp [Host.Lists, fault, Except.map]
  | none =>
    show (host.tree.list host.directory directory).map _ = .ok found ↔ _
    constructor
    · intro h
      cases replied : host.tree.list host.directory directory with
      | error e =>
        rw [replied] at h
        cases h
      | ok entries =>
        rw [replied] at h
        cases h
        obtain ⟨folder, accepted, reaches, rfl⟩ := FileTree.list_eq_ok_iff.mp replied
        exact ⟨⟨fault, accepted, folder, reaches⟩, folder, reaches, rfl⟩
    · rintro ⟨⟨-, accepted, -⟩, folder, reaches, rfl⟩
      rw [FileTree.list_eq_ok_iff.mpr ⟨folder, accepted, reaches, rfl⟩]
      rfl

end Stored

namespace Candidates

variable {candidates refilled : Candidates} {directory : Path} {host : Host}

/-! ### What is seen of a directory -/

/-- Paths of records that the directory shows, no more than so many, in the order of their
names. -/
def Snapshot (directory : Path) (limit : Nat) (host : Host) (batch : List Path) : Prop :=
  ∃ names : List Name, batch = names.map directory.join ∧ names.Pairwise (· < ·) ∧
    names.length ≤ limit ∧ ∀ name ∈ names, host.Shows directory name

/-- What is left of a snapshot is one. -/
theorem Snapshot.left {limit : Nat} {popped batch : List Path}
    (h : Snapshot directory limit host (popped ++ batch)) : Snapshot directory limit host batch := by
  obtain ⟨names, whole, ascending, few, shown⟩ := h
  obtain ⟨front, behind, rfl, -, rfl⟩ := List.map_eq_append_iff.mp whole.symm
  rw [List.length_append] at few
  exact ⟨behind, rfl, (List.pairwise_append.mp ascending).2.1, by omega,
    fun name mem => shown name (List.mem_append_right _ mem)⟩

/-- A new batch is a snapshot, which lacks no record as long as there is room. -/
theorem snapshot_refill (wf : host.tree.WellFormed)
    (h : ((candidates.refill directory).run host).1 = .ok refilled) :
    Snapshot directory candidates.limit host refilled.batch ∧
      (refilled.batch.length < candidates.limit →
        ∀ name, host.Shows directory name → directory.join name ∈ refilled.batch) := by
  obtain ⟨paths, found, rfl⟩ := refill_eq_ok h
  obtain ⟨-, folder, reaches, rfl⟩ := Stored.paths_eq_ok_iff.mp found
  obtain ⟨all, perm, inOrder⟩ :=
    exists_ascending (Stored.nodup_listed host.tree folder FileNames.committed)
  have kept := retained_sublist candidates.limit candidates.order all
  have batch : batchOf candidates.limit candidates.order
      ((Stored.listed host.tree folder FileNames.committed).map directory.join)
        = (retained candidates.limit candidates.order all).map directory.join :=
    batchOf_eq (sorted_listed wf perm inOrder)
  have few := congrArg List.length batch
  rw [length_batchOf, List.length_map, List.length_map, ← perm.length_eq] at few
  constructor
  · refine ⟨_, batch, inOrder.sublist kept, by omega, ?_⟩
    intro name mem
    exact ⟨folder, reaches, Stored.mem_listed.mp (perm.mem_iff.mp (kept.subset mem))⟩
  · rintro room name ⟨other, reaches', shown⟩
    cases Option.some.inj (reaches.symm.trans reaches')
    simp only [batch, List.length_map] at room ⊢
    rw [kept.eq_of_length (by omega)]
    exact List.mem_map_of_mem (perm.mem_iff.mpr (Stored.mem_listed.mpr shown))

/-! ### One call -/

/-- The first name leaves the batch, whether or not it becomes a claim. -/
theorem batch_next (candidates : Candidates) :
    candidates.next.2.batch = candidates.batch.tail := by
  have tried := candidates.tried_next
  generalize candidates.next = outcome at tried ⊢
  cases tried with
  | nothing empty => rw [empty, List.tail_nil]
  | dropped path rest batch why => rw [batch, List.tail_cons]
  | claimed path rest base batch name free => rw [batch, List.tail_cons]

theorem limit_next (candidates : Candidates) : candidates.next.2.limit = candidates.limit := by
  have tried := candidates.tried_next
  generalize candidates.next = outcome at tried ⊢
  cases tried <;> rfl

/-- A claim is made of the first name, if that is text and not claimed. -/
theorem next_eq_some_iff {claim : Claim} : candidates.next.1 = some claim ↔
    candidates.batch.head? = some claim.path ∧
      FileNames.baseName? claim.path = some claim.base ∧
        candidates.isClaimed claim.base = false := by
  have tried := candidates.tried_next
  generalize candidates.next = outcome at tried ⊢
  cases tried with
  | nothing empty => simp [empty]
  | dropped path rest batch why =>
    rw [batch, List.head?_cons]
    refine iff_of_false (by simp) ?_
    rintro ⟨⟨⟩, name, free⟩
    rw [why _ name] at free
    cases free
  | claimed path rest base batch name free =>
    rw [batch, List.head?_cons]
    constructor
    · rintro ⟨⟩
      exact ⟨rfl, name, free⟩
    · obtain ⟨own, read⟩ := claim
      rintro ⟨⟨⟩, name', -⟩
      cases name.symm.trans name'
      rfl

/-- As long as there is a name left, the files are not asked for. -/
theorem onlyCalls_take (nonempty : candidates.batch ≠ []) (directory : Path) :
    (candidates.take directory).OnlyCalls fun c => ∀ op, c ≠ .file op := by
  rw [take, if_neg nonempty]
  exact (Queue.onlyCalls_pop (by simp) candidates).bind fun _ => trivial

/-- A call for the next claim: the candidates and the host that it comes upon. -/
structure Taking where
  candidates : Candidates
  host : Host
  wellFormed : host.tree.WellFormed

namespace Taking

/-- What the call comes to. -/
def outcome (taking : Taking) (directory : Path) : Except IoError (Option Claim) × Candidates :=
  ((taking.candidates.take directory).run taking.host).1

/-- The candidates with a new batch, if the call makes one. -/
def refilled? (taking : Taking) (directory : Path) : Option Candidates :=
  if taking.candidates.batch = [] then
    ((taking.candidates.refill directory).run taking.host).1.toOption
  else none

/-- The candidates that the call takes from. -/
def offered (taking : Taking) (directory : Path) : Candidates :=
  (taking.refilled? directory).getD taking.candidates

/-- The path that leaves the batch, if there is one. -/
def popped? (taking : Taking) (directory : Path) : Option Path :=
  (taking.offered directory).batch.head?

variable {taking : Taking}

/-- Either the batch is empty and the directory cannot be listed, or the call takes from what
it is offered. -/
theorem outcome_cases (taking : Taking) (directory : Path) :
    (∃ e, taking.outcome directory = (.error e, taking.candidates) ∧
        taking.candidates.batch = [] ∧ taking.refilled? directory = none) ∨
      taking.outcome directory
          = (.ok (taking.offered directory).next.1, (taking.offered directory).next.2) ∧
        (taking.candidates.batch = [] → (taking.refilled? directory).isSome) := by
  rw [outcome, run_take, offered, refilled?]
  by_cases empty : taking.candidates.batch = []
  · rw [if_pos empty, if_pos empty]
    cases ((taking.candidates.refill directory).run taking.host).1 with
    | error e => exact .inl ⟨e, rfl, empty, rfl⟩
    | ok refilled => exact .inr ⟨rfl, fun _ => rfl⟩
  · rw [if_neg empty, if_neg empty]
    exact .inr ⟨rfl, fun none => absurd none empty⟩

theorem refill_of_refilled? {taking : Taking} (h : taking.refilled? directory = some refilled) :
    ((taking.candidates.refill directory).run taking.host).1 = .ok refilled := by
  rw [refilled?] at h
  split at h
  · cases refilling : ((taking.candidates.refill directory).run taking.host).1 with
    | error e =>
      rw [refilling] at h
      cases h
    | ok fresh =>
      rw [refilling] at h
      cases h
      rfl
  · cases h

/-- A new batch changes neither the limit nor the claims. -/
theorem offered_eq (taking : Taking) (directory : Path) :
    (taking.offered directory).limit = taking.candidates.limit ∧
      (taking.offered directory).claimed = taking.candidates.claimed := by
  rw [offered]
  cases made : taking.refilled? directory with
  | none => exact ⟨rfl, rfl⟩
  | some refilled =>
    obtain ⟨paths, -, rfl⟩ := refill_eq_ok (refill_of_refilled? made)
    exact ⟨rfl, rfl⟩

theorem limit_outcome (taking : Taking) (directory : Path) :
    (taking.outcome directory).2.limit = taking.candidates.limit := by
  rcases taking.outcome_cases directory with ⟨e, failed, -⟩ | ⟨done, -⟩
  · rw [failed]
  · rw [done, limit_next, (taking.offered_eq directory).1]

/-- A call makes a new batch if there is none left of the old one and the directory can be
listed. -/
theorem isSome_refilled?_iff (taking : Taking) (directory : Path) :
    (taking.refilled? directory).isSome ↔
      taking.candidates.batch = [] ∧ taking.host.Lists directory := by
  constructor
  · intro some
    obtain ⟨refilled, made⟩ := Option.isSome_iff_exists.mp some
    obtain ⟨paths, found, -⟩ := refill_eq_ok (refill_of_refilled? made)
    refine ⟨?_, (Stored.paths_eq_ok_iff.mp found).1⟩
    by_contra nonempty
    rw [refilled?, if_neg nonempty] at made
    cases made
  · rintro ⟨empty, lists⟩
    obtain ⟨-, -, folder, reaches⟩ := id lists
    rw [refilled?, if_pos empty, refill, Program.run_andThen,
      Stored.paths_eq_ok_iff.mpr ⟨lists, folder, reaches, rfl⟩]
    rfl

/-- A call that finds a name left comes to the same on every host. -/
theorem outcome_of_ne_nil (taking : Taking) (directory : Path)
    (nonempty : taking.candidates.batch ≠ []) (other : Host) :
    ((taking.candidates.take directory).run other).1 = taking.outcome directory := by
  rw [outcome, run_take, run_take, if_neg nonempty, if_neg nonempty]

/-- What a call does to the batch and the claims: it takes the first name out of what it is
offered, and claims it if that can be done; it looks at the directory if the batch is empty and
not otherwise; and where that look fails, everything stays as it was. -/
structure Hands (directory : Path) (taking : Taking) : Prop where
  popped : (taking.offered directory).batch
    = (taking.popped? directory).toList ++ (taking.outcome directory).2.batch
  given : ∀ claim, (taking.outcome directory).1 = .ok (some claim) ↔
    taking.popped? directory = some claim.path ∧
      FileNames.baseName? claim.path = some claim.base ∧
        taking.candidates.isClaimed claim.base = false
  refilled : (taking.refilled? directory).isSome ↔
    taking.candidates.batch = [] ∧ taking.host.Lists directory
  unlisted : taking.candidates.batch ≠ [] →
    ((taking.candidates.take directory).OnlyCalls fun c => ∀ op, c ≠ .file op) ∧
      ∀ other : Host, ((taking.candidates.take directory).run other).1 = taking.outcome directory
  failed : (∃ e, (taking.outcome directory).1 = .error e) ↔
    taking.candidates.batch = [] ∧ ¬ taking.host.Lists directory
  unchanged : ∀ e, (taking.outcome directory).1 = .error e →
    (taking.outcome directory).2.batch = [] ∧
      (taking.outcome directory).2.claimed = taking.candidates.claimed

theorem hands (taking : Taking) (directory : Path) : taking.Hands directory := by
  have refilled := taking.isSome_refilled?_iff directory
  have unlisted := fun nonempty => And.intro (onlyCalls_take nonempty directory)
    (taking.outcome_of_ne_nil directory nonempty)
  rcases taking.outcome_cases directory with ⟨e, failed, empty, none⟩ | ⟨done, filled⟩
  · rw [none] at refilled
    have hidden : ¬ taking.host.Lists directory := fun lists => by
      cases refilled.mpr ⟨empty, lists⟩
    have nothing : taking.popped? directory = .none := by
      rw [popped?, offered, none, Option.getD_none, empty, List.head?_nil]
    refine ⟨?_, ?_, none ▸ refilled, unlisted, ?_, ?_⟩
    · rw [nothing, offered, none, failed]
      rfl
    · intro claim
      simp [failed, nothing]
    · simp [failed, empty, hidden]
    · intro _ _
      rw [failed]
      exact ⟨empty, rfl⟩
  · have succeeded : ¬ ∃ e, (taking.outcome directory).1 = .error e := by simp [done]
    refine ⟨?_, ?_, refilled, unlisted, iff_of_false succeeded ?_,
      fun e failed => absurd ⟨e, failed⟩ succeeded⟩
    · rw [done, batch_next, popped?]
      cases (taking.offered directory).batch <;> rfl
    · intro claim
      rw [done, Except.ok.injEq, next_eq_some_iff, popped?, isClaimed, isClaimed,
        (taking.offered_eq directory).2]
    · rintro ⟨empty, hidden⟩
      exact hidden (refilled.mp (filled empty)).2

end Taking

/-! ### Runs on one directory -/

/-- A call for a claim finds the files as they may be by then; a name that is claimed is given
back. -/
inductive Move where
  | take (host : Host) (wellFormed : host.tree.WellFormed)
  | release (base : Name)

/-- The candidates after a move. -/
def step (directory : Path) (candidates : Candidates) : Move → Candidates
  | .take host wellFormed => (Taking.outcome ⟨candidates, host, wellFormed⟩ directory).2
  | .release base => candidates.release base

/-- The candidates after one move after another. -/
def steps (directory : Path) (candidates : Candidates) (moves : List Move) : Candidates :=
  moves.foldl (step directory) candidates

/-- The calls of a run. -/
def takings (directory : Path) (candidates : Candidates) : List Move → List Taking
  | [] => []
  | .take host wellFormed :: rest =>
    ⟨candidates, host, wellFormed⟩
      :: takings directory (candidates.step directory (.take host wellFormed)) rest
  | .release base :: rest => takings directory (candidates.step directory (.release base)) rest

/-- The last call that has made a new batch, with that batch and the calls since. -/
def Latest (directory : Path) (takings : List Taking) (taking : Taking) (refilled : Candidates)
    (since : List Taking) : Prop :=
  ∃ earlier, takings = earlier ++ taking :: since ∧ taking.refilled? directory = some refilled ∧
    ∀ other ∈ since, other.refilled? directory = none

variable {moves : List Move} {taking : Taking} {since : List Taking}

theorem limit_steps (directory : Path) (candidates : Candidates) (moves : List Move) :
    (candidates.steps directory moves).limit = candidates.limit := by
  induction moves generalizing candidates with
  | nil => rfl
  | cons move rest ih =>
    refine (ih (candidates.step directory move)).trans ?_
    cases move with
    | take host wellFormed => exact Taking.limit_outcome _ directory
    | release base => rfl

/-- A call of a run splits its moves. -/
theorem exists_moves {earlier later : List Taking}
    (h : candidates.takings directory moves = earlier ++ taking :: later) :
    ∃ before behind, earlier = candidates.takings directory before ∧
      taking.candidates = candidates.steps directory before ∧
      later = (taking.outcome directory).2.takings directory behind ∧
      candidates.steps directory moves = (taking.outcome directory).2.steps directory behind := by
  induction moves generalizing candidates earlier with
  | nil => simp [takings] at h
  | cons move rest ih =>
    cases move with
    | release base =>
      obtain ⟨before, behind, rfl, met, later, ends⟩ := ih h
      exact ⟨.release base :: before, behind, rfl, met, later, ends⟩
    | take host wellFormed =>
      cases earlier with
      | nil =>
        obtain ⟨rfl, rfl⟩ := List.cons.inj h
        exact ⟨[], rest, rfl, rfl, rfl, rfl⟩
      | cons first earlier =>
        obtain ⟨rfl, tail⟩ := List.cons.inj h
        obtain ⟨before, behind, rfl, met, later, ends⟩ := ih tail
        exact ⟨.take host wellFormed :: before, behind, rfl, met, later, ends⟩

/-- Without a new batch, what leaves the batch and what is left make it up. -/
theorem batch_eq (directory : Path) (candidates : Candidates) (moves : List Move)
    (kept : ∀ taking ∈ candidates.takings directory moves, taking.refilled? directory = none) :
    candidates.batch = (candidates.takings directory moves).filterMap (·.popped? directory)
      ++ (candidates.steps directory moves).batch := by
  induction moves generalizing candidates with
  | nil => rfl
  | cons move rest ih =>
    cases move with
    | release base => exact ih (candidates.release base) kept
    | take host wellFormed =>
      obtain ⟨none, kept⟩ := List.forall_mem_cons.mp kept
      have popped := (Taking.hands ⟨candidates, host, wellFormed⟩ directory).popped
      have left := ih _ kept
      rw [Taking.offered, none, Option.getD_none] at popped
      rw [step] at left
      rw [popped, left, takings, List.filterMap_cons]
      cases Taking.popped? ⟨candidates, host, wellFormed⟩ directory <;> rfl

/-- Either no call has made a batch, or one was the last to make one. -/
theorem exists_latest (directory : Path) (takings : List Taking) :
    (∀ taking ∈ takings, taking.refilled? directory = none) ∨
      ∃ taking refilled since, Latest directory takings taking refilled since := by
  induction takings using List.reverseRecOn with
  | nil => exact .inl (List.forall_mem_nil _)
  | append_singleton takings last ih =>
    cases made : last.refilled? directory with
    | some refilled => exact .inr ⟨last, refilled, [], takings, rfl, made, List.forall_mem_nil _⟩
    | none =>
      rcases ih with never | ⟨taking, refilled, since, earlier, rfl, some, kept⟩
      · exact .inl (List.forall_mem_append.mpr ⟨never, by simpa using made⟩)
      · refine .inr ⟨taking, refilled, since ++ [last], earlier, by simp, some, ?_⟩
        exact List.forall_mem_append.mpr ⟨kept, by simpa using made⟩

/-- The last batch is what the directory showed when it was made, and what has been popped
since and what is left make it up. -/
theorem batch_of_latest
    (h : Latest directory (candidates.takings directory moves) taking refilled since) :
    Snapshot directory candidates.limit taking.host refilled.batch ∧
      (refilled.batch.length < candidates.limit →
        ∀ name, taking.host.Shows directory name → directory.join name ∈ refilled.batch) ∧
      (taking :: since).filterMap (·.popped? directory)
        ++ (candidates.steps directory moves).batch = refilled.batch := by
  obtain ⟨earlier, split, made, kept⟩ := h
  obtain ⟨before, behind, -, met, rfl, ends⟩ := exists_moves split
  have limit : taking.candidates.limit = candidates.limit := by rw [met, limit_steps]
  obtain ⟨snapshot, complete⟩ := snapshot_refill taking.wellFormed (Taking.refill_of_refilled? made)
  refine ⟨limit ▸ snapshot, limit ▸ complete, ?_⟩
  have popped := (taking.hands directory).popped
  have left := batch_eq directory _ behind kept
  rw [Taking.offered, made, Option.getD_some] at popped
  rw [popped, left, ends, List.filterMap_cons]
  cases taking.popped? directory <;> rfl

/-- How candidates are handed out on one directory. -/
structure HandedOut (directory : Path) (size : UInt64) (order : RefillOrder) (moves : List Move) :
    Prop where
  cached : ((start size order).steps directory moves).batch = [] ∨
    ∃ taking refilled since,
      Latest directory ((start size order).takings directory moves) taking refilled since ∧
        Snapshot directory (max size.toNat 1) taking.host
          ((start size order).steps directory moves).batch
  popped : ∀ taking refilled since,
    Latest directory ((start size order).takings directory moves) taking refilled since →
      Snapshot directory (max size.toNat 1) taking.host refilled.batch ∧
        (refilled.batch.length < max size.toNat 1 →
          ∀ name, taking.host.Shows directory name → directory.join name ∈ refilled.batch) ∧
        (taking :: since).filterMap (·.popped? directory)
          ++ ((start size order).steps directory moves).batch = refilled.batch
  whole : ∀ before next later, (start size order).takings directory moves = before ++ next :: later →
    (next.refilled? directory).isSome →
      ∀ taking refilled since, Latest directory before taking refilled since →
        (taking :: since).filterMap (·.popped? directory) = refilled.batch
  hands : ∀ taking ∈ (start size order).takings directory moves, taking.Hands directory

/-- A batch is what the directory showed at the last look at it, in order and no more than fits.
It is handed out name by name, each name once, and the next look waits until it is empty. -/
theorem handed_out (directory : Path) (size : UInt64) (order : RefillOrder) (moves : List Move) :
    HandedOut directory size order moves where
  cached := by
    rcases exists_latest directory ((start size order).takings directory moves) with
      never | ⟨taking, refilled, since, latest⟩
    · have whole := batch_eq directory (start size order) moves never
      exact .inl (List.append_eq_nil_iff.mp whole.symm).2
    · obtain ⟨snapshot, -, whole⟩ := batch_of_latest latest
      rw [← whole] at snapshot
      exact .inr ⟨taking, refilled, since, latest, snapshot.left⟩
  popped _ _ _ latest := batch_of_latest latest
  whole := by
    intro before next later split again taking refilled since latest
    obtain ⟨moved, behind, rfl, met, -, -⟩ := exists_moves split
    obtain ⟨-, -, whole⟩ := batch_of_latest latest
    have empty := ((next.isSome_refilled?_iff directory).mp again).1
    rw [← met, empty, List.append_nil] at whole
    exact whole
  hands taking _ := taking.hands directory

end Candidates
end DiskQueue
