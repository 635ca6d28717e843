/-
Module: DiskQueue.Proofs.Draining
Purpose: A queue that is alone gives every record of its folder once, in the order of its
  batches.
Trusted boundary: none
Main exports:
  Host.Calm, Host.ReachesAside, FileTree.Takeable, Queue.drain, Queue.Drains,
  Queue.Drainable, Queue.Drainable.drains, Queue.drained
-/
import DiskQueue.Proofs.Batches
import DiskQueue.Proofs.Renaming
import Mathlib.Data.List.Sort

namespace DiskQueue

open FileTree (Fits Holds Moves Took)
open FileNames (asCommitted asTemporary)

/-!
An attempt to take a record gives the record, or tells why it cannot be decoded; in both cases the
file is gone. So as many attempts as there are files empty the folder, unless a file cannot be got
hold of. That happens if a fault strikes, except when a file is removed that has been read, and
there are three more reasons: a name that is no text is passed over, a directory under the
temporary name does not give way, and the system does not take every path. Nor is a file read if
its temporary name was needed to get to the folder.
-/

variable {folder : Key} {directory : Path} {host after : Host} {base name : Name}

/-! ### Faults that do not matter -/

/-- From now on no operation fails but for the tree, except that files may not be removable. -/
def Host.Calm (host : Host) : Prop :=
  ∀ number op, host.calls ≤ number → (∀ path, op ≠ .remove path) → host.fault number op = none

/-- A host without its faults, except those that strike when a file is removed. -/
def Host.cleared (host : Host) : Host where
  __ := host
  fault := fun number op =>
    match op with
    | .remove path => host.fault number (.remove path)
    | _ => none

theorem Host.steady_cleared (host : Host) : host.cleared.Steady := by
  intro number op other
  cases op with
  | remove path => exact absurd rfl (other path)
  | _ => rfl

theorem Host.serves_cleared :
    host.cleared.Serves folder directory ↔ host.Serves folder directory :=
  ⟨fun h => ⟨h.wellFormed, h.current, h.isFolder, h.leads⟩,
    fun h => ⟨h.wellFormed, h.current, h.isFolder, h.leads⟩⟩

theorem Host.Calm.later (calm : host.Calm) (later : host.Later after) : after.Calm := by
  intro number op since
  rw [later.fault]
  exact calm number op (Nat.le_trans later.calls since)

theorem Host.operate_cleared {op : FileOp}
    (clear : (∀ path, op ≠ .remove path) → host.fault host.calls op = none) :
    host.cleared.operate op = ((host.operate op).1, (host.operate op).2.cleared) := by
  have same : host.cleared.fault host.calls op = host.fault host.calls op := by
    cases op with
    | remove path => rfl
    | _ => exact (clear (by simp)).symm
  unfold operate
  rw [show host.cleared.calls = host.calls from rfl, same]
  cases host.fault host.calls op <;> rfl

theorem Host.answer_cleared {c : Call}
    (clear : ∀ op, c = .file op → (∀ path, op ≠ .remove path) → host.fault host.calls op = none) :
    host.cleared.answer c = ((host.answer c).1, (host.answer c).2.cleared) := by
  cases c with
  | file op => exact operate_cleared (clear op rfl)
  | report what =>
    simp only [answer, tallied]
    cases event : (host.tally.record (host.instant host.calls) what).2 with
    | none => simp [loggedAny, cleared, counted, event]
    | some event' => simp [loggedAny, cleared, counted, event, logged]
  | now | pause | log => rfl

/-- A program does the same on a host without faults if those that are cleared do not strike its
calls. -/
theorem Program.OnlyCalls.run_cleared {α : Type} {may : Call → Prop} {p : Program α}
    (only : p.OnlyCalls may)
    (clear : ∀ number op, host.calls ≤ number → may (.file op) → (∀ path, op ≠ .remove path) →
      host.fault number op = none) :
    p.run host.cleared = ((p.run host).1, (p.run host).2.cleared) := by
  induction p generalizing host with
  | done value => rfl
  | call c next ih =>
    have first : host.cleared.answer c = ((host.answer c).1, (host.answer c).2.cleared) := by
      apply Host.answer_cleared
      rintro op rfl
      exact clear host.calls op (Nat.le_refl _) only.1
    have later := (Host.later_answer host c).1
    have rest := ih (host.answer c).1 (only.2 _) fun number op since => by
      rw [later.fault]
      exact clear number op (Nat.le_trans later.calls since)
    simp only [Program.run, first]
    exact rest

/-- A program does the same on a calm host as on one that has been calm from the start. -/
theorem Program.run_cleared {α : Type} (p : Program α) (calm : host.Calm) :
    p.run host.cleared = ((p.run host).1, (p.run host).2.cleared) := by
  have any : p.OnlyCalls fun _ => True := by
    induction p with
    | done value => trivial
    | call c next ih => exact ⟨trivial, ih⟩
  exact any.run_cleared fun number op since _ => calm number op since

/-! ### Paths that do not lead through temporary names -/

/-- Nothing under a temporary name of the folder is needed to get there. -/
def Host.ReachesAside (folder : Key) (directory : Path) (host : Host) : Prop :=
  ∃ tree, Holds host.tree tree ∧ (∀ base, tree.lookup (folder ++ [asTemporary base]) = none) ∧
    tree.folder? host.directory directory = some folder

namespace FileTree

variable {before after tree : FileTree} {content : Bytes} {modified : Int}

/-- What is left of directories and links when only a record and an entry under a temporary name
change. -/
theorem Holds.aside (holds : Holds before tree)
    (without : tree.lookup (folder ++ [asTemporary base]) = none)
    (there : before.lookup (folder ++ [asCommitted base]) = some (.file content modified))
    (same : ∀ key, key ≠ folder ++ [asCommitted base] → key ≠ folder ++ [asTemporary base] →
      after.lookup key = before.lookup key) : Holds after tree := by
  intro key node notFile found
  have kept := holds key node notFile found
  rw [same key, kept]
  · rintro rfl
    cases there.symm.trans kept
    exact notFile rfl
  · rintro rfl
    cases without.symm.trans found

end FileTree

/-- The root is reached without any of its entries if the path names none. -/
theorem Host.reachesAside_of_root (root : host.tree.lookup [] = some .directory)
    (leads : FileTree.empty.folder? host.directory directory = some []) :
    host.ReachesAside [] directory := by
  refine ⟨FileTree.empty, ?_, fun base => FileTree.lookup_empty (List.cons_ne_nil _ _), leads⟩
  intro key node notFile found
  cases key with
  | nil =>
    cases found
    exact root
  | cons name rest => cases (FileTree.lookup_empty (List.cons_ne_nil name rest)).symm.trans found

/-- A folder in the root is reached without any of its entries if the path names nothing else. -/
theorem Host.reachesAside_of_child (there : host.tree.lookup [name] = some .directory)
    (leads : (FileTree.empty.insert ([] ++ [name]) .directory).folder? host.directory directory
      = some [name]) : host.ReachesAside [name] directory := by
  have only : FileTree.Sets [] name (some .directory) FileTree.empty _ :=
    FileTree.sets_insert FileTree.empty [] name .directory
  refine ⟨_, ?_, ?_, leads⟩
  · intro key node notFile found
    by_cases own : key = [] ++ [name]
    · subst own
      rw [only.lookup_self] at found
      cases found
      exact there
    · rw [only.lookup_other own] at found
      cases key with
      | nil =>
        cases found
        rfl
      | cons first rest =>
        cases (FileTree.lookup_empty (List.cons_ne_nil first rest)).symm.trans found
  · intro base
    rw [only.lookup_other (by simp)]
    exact FileTree.lookup_empty (by simp)

namespace Host.ReachesAside

theorem reaches (h : host.ReachesAside folder directory) : host.Reaches folder directory := by
  obtain ⟨tree, holds, -, leads⟩ := h
  exact FileTree.folder?_mono holds leads

theorem keptInReach (h : host.ReachesAside folder directory) {content : Bytes} {modified : Int}
    (there : host.tree.lookup (folder ++ [asCommitted base]) = some (.file content modified)) :
    Queue.KeptInReach host folder directory base := by
  intro _ moved moves
  obtain ⟨tree, holds, without, leads⟩ := h
  refine FileTree.folder?_mono (holds.aside (without base) there ?_) leads
  intro key committed temporary
  rw [moves, if_neg temporary, if_neg committed]

theorem took (h : host.ReachesAside folder directory) {content : Bytes} (later : host.Later after)
    (took : Took folder base content host.tree after.tree) :
    after.ReachesAside folder directory := by
  obtain ⟨tree, holds, without, leads⟩ := h
  obtain ⟨modified, there⟩ := took.there
  refine ⟨tree, holds.aside (without base) there fun key => took.lookup_key, without, ?_⟩
  rw [later.directory]
  exact leads

end Host.ReachesAside

/-! ### What can be taken -/

/-- A name that is text, with no directory under the temporary name that goes with it. -/
structure FileTree.Takeable (folder : Key) (tree : FileTree) (name : Name) : Prop where
  text : Utf8.isText name = true
  free : ∀ base, name = asCommitted base →
    tree.lookup (folder ++ [asTemporary base]) ≠ some .directory

theorem FileTree.takeable_asCommitted {tree : FileTree}
    (text : Utf8.isText (asCommitted base) = true)
    (free : tree.lookup (folder ++ [asTemporary base]) ≠ some .directory) :
    tree.Takeable folder (asCommitted base) := by
  refine ⟨text, ?_⟩
  intro other same
  rwa [← FileNames.withExtension_injective same]

theorem FileTree.Took.takeable {before after : FileTree} {content : Bytes}
    (took : Took folder base content before after) (different : name ≠ asCommitted base)
    (h : before.Takeable folder name) : after.Takeable folder name := by
  refine ⟨h.text, ?_⟩
  rintro other rfl
  have temporary : asTemporary other ≠ asTemporary base := fun same =>
    different (congrArg asCommitted (FileNames.withExtension_injective same))
  rw [took.lookup_other (FileNames.committed_ne_temporary _ _).symm temporary]
  exact h.free other rfl

namespace Stored

/-- The bytes of a file of a folder. -/
def content (tree : FileTree) (folder : Key) (name : Name) : Bytes :=
  match tree.lookup (folder ++ [name]) with
  | some (.file content _) => content
  | _ => []

/-- What is answered when a file is taken. -/
def given (tree : FileTree) (folder : Key) (name : Name) :
    Except QueueError (Option Transmission) :=
  (decoded (content tree folder name)).map some

theorem content_eq {tree : FileTree} {bytes : Bytes} {modified : Int}
    (there : tree.lookup (folder ++ [name]) = some (.file bytes modified)) :
    content tree folder name = bytes := by
  unfold content
  rw [there]

theorem given_congr {tree other : FileTree}
    (same : other.lookup (folder ++ [name]) = tree.lookup (folder ++ [name])) :
    given other folder name = given tree folder name := by
  unfold given content
  rw [same]

end Stored

/-! ### Emptying a folder -/

namespace Queue

variable {queue later left : Queue} {size : UInt64} {order : RefillOrder} {names : List Name}

/-- The answers to so many attempts to take a record, and the queue and the host afterwards. -/
def drain : Nat → Queue → Host →
    List (Except QueueError (Option Transmission)) × Queue × Host
  | 0, queue, host => ([], queue, host)
  | count + 1, queue, host =>
    let outcome := queue.tryDequeue.run host
    let ended := drain count outcome.1.2 outcome.2
    (outcome.1.1 :: ended.1, ended.2)

/-- Faults that do not strike make no difference. -/
theorem drain_cleared (calm : host.Calm) (count : Nat) :
    queue.drain count host.cleared
      = ((queue.drain count host).1, (queue.drain count host).2.1,
        (queue.drain count host).2.2.cleared) := by
  induction count generalizing queue host with
  | zero => rfl
  | succ count ih =>
    have rest := @ih _ (queue.tryDequeue.run host).1.2
      (calm.later (Program.later_run queue.tryDequeue host))
    simp only [drain, Program.run_cleared _ calm, rest]

/-- The files are taken one by one, and each answer is what can be read from the next file;
the others stay as they are. After the last file there is nothing. -/
structure Drains (folder : Key) (queue : Queue) (host : Host) (names : List Name) : Prop where
  distinct : names.Nodup
  answers : (queue.drain (names.length + 1) host).1
    = names.map (Stored.given host.tree folder) ++ [.ok none]
  left : ∀ count, count ≤ names.length →
    (Stored.listed (queue.drain count host).2.2.tree folder FileNames.committed).Perm
      (names.drop count)
  kept : ∀ count, count ≤ names.length → ∀ name ∈ names.drop count,
    (queue.drain count host).2.2.tree.lookup (folder ++ [name])
      = host.tree.lookup (folder ++ [name])

theorem Drains.of_cleared (calm : host.Calm) (h : queue.Drains folder host.cleared names) :
    queue.Drains folder host names := by
  obtain ⟨distinct, answers, left, kept⟩ := h
  simp only [drain_cleared calm] at answers left kept
  exact ⟨distinct, answers, left, kept⟩

/-- Nothing is drained from an empty folder. -/
theorem drains_nil (nothing : Stored.listed host.tree folder FileNames.committed = [])
    (answer : (queue.tryDequeue.run host).1.1 = .ok none) : queue.Drains folder host [] := by
  refine ⟨List.nodup_nil, ?_, ?_, ?_⟩
  · simp [drain, answer]
  · intro count bound
    rw [Nat.le_zero.mp bound, drain, nothing]
    exact List.Perm.refl _
  · intro count bound name mem
    simp at mem

/-- The first file is taken, and then the others. -/
theorem drains_cons {later : Queue} {after : Host}
    (ran : queue.tryDequeue.run host = ((Stored.given host.tree folder name, later), after))
    (listed : (Stored.listed host.tree folder FileNames.committed).Perm (name :: names))
    (same : ∀ other ∈ names, after.tree.lookup (folder ++ [other])
      = host.tree.lookup (folder ++ [other]))
    (rest : later.Drains folder after names) : queue.Drains folder host (name :: names) := by
  have step : ∀ count, queue.drain (count + 1) host
      = (Stored.given host.tree folder name :: (later.drain count after).1,
        (later.drain count after).2) := by
    intro count
    rw [drain, ran]
  refine ⟨listed.nodup_iff.mp (Stored.nodup_listed _ _ _), ?_, ?_, ?_⟩
  · have others : names.map (Stored.given after.tree folder)
        = names.map (Stored.given host.tree folder) :=
      List.map_congr_left fun other mem => Stored.given_congr (same other mem)
    rw [List.length_cons, step, rest.answers, others]
    rfl
  · intro count bound
    cases count with
    | zero => exact listed
    | succ count =>
      rw [step, List.drop_succ_cons]
      exact rest.left count (Nat.le_of_succ_le_succ bound)
  · intro count bound other mem
    cases count with
    | zero => rfl
    | succ count =>
      rw [List.drop_succ_cons] at mem
      rw [step, rest.kept count (Nat.le_of_succ_le_succ bound) other mem]
      exact same other (List.mem_of_mem_drop mem)

/-- A queue that can get hold of every file of its folder. The names of its batch come first,
and both they and the others ascend. -/
structure Drainable (size : UInt64) (order : RefillOrder) (folder : Key) (queue : Queue)
    (host : Host) (first others : List Name) : Prop where
  serves : host.Serves folder queue.directory
  steady : host.Steady
  accepted : FileTree.refusal? queue.directory = none
  aside : host.ReachesAside folder queue.directory
  candidates : queue.candidates = .holding size order queue.directory first
  firstAscend : first.Pairwise (· < ·)
  othersAscend : others.Pairwise (· < ·)
  listed : (first ++ others).Perm (Stored.listed host.tree folder FileNames.committed)
  takeable : ∀ name ∈ Stored.listed host.tree folder FileNames.committed,
    host.tree.Takeable folder name
  fits : ∀ name ∈ Stored.listed host.tree folder FileNames.committed, Fits queue.directory name

namespace Drainable

variable {first others : List Name}

/-- The order in which files are given does not depend on how many of them are in the batch:
a new batch takes its names from the beginning of what is due. -/
theorem refreshed (h : Drainable size order folder queue host first others) :
    ∃ names more, Drainable size order folder
        { queue with
          candidates := queue.candidates.refreshed host.tree folder queue.directory }
        host names more ∧
      names ++ Candidates.arranged (max size.toNat 1) order more
        = first ++ Candidates.arranged (max size.toNat 1) order others ∧
      (names = [] → more = []) := by
  have positive : 0 < max size.toNat 1 := Candidates.limit_pos size
  by_cases empty : first = []
  · subst empty
    have perm : others.Perm (Stored.listed host.tree folder FileNames.committed) := h.listed
    have batch : queue.candidates.refreshed host.tree folder queue.directory
        = .holding size order queue.directory
          (Candidates.retained (max size.toNat 1) order others) := by
      rw [h.candidates,
        Candidates.refreshed_holding_nil h.serves.wellFormed perm h.othersAscend]
    refine ⟨Candidates.retained (max size.toNat 1) order others,
      Candidates.deferred (max size.toNat 1) order others, ?_, ?_, ?_⟩
    · exact { h with
        candidates := batch
        firstAscend := h.othersAscend.sublist (Candidates.retained_sublist _ _ _)
        othersAscend := h.othersAscend.sublist (Candidates.deferred_sublist _ _ _)
        listed := (Candidates.perm_retained_deferred _ _ _).trans perm }
    · exact (Candidates.arranged_eq positive others).symm
    · intro none
      have nothing : others = [] := by
        by_contra some
        exact Candidates.retained_ne_nil positive some none
      subst nothing
      exact List.sublist_nil.mp (Candidates.deferred_sublist _ _ _)
  · have batch : queue.candidates.refreshed host.tree folder queue.directory
        = .holding size order queue.directory first := by
      rw [h.candidates, Candidates.refreshed_holding_of_ne_nil empty]
    exact ⟨first, others, { h with candidates := batch }, rfl, fun none => absurd none empty⟩

/-- The next name of the batch is that of a file. -/
theorem listed_next
    (h : Drainable size order folder queue host (asCommitted base :: first) others) :
    base ≠ [] ∧ Path.slash ∉ base ∧ asCommitted base ∈
      Stored.listed host.tree folder FileNames.committed := by
  have mem := h.listed.mem_iff.mp (List.mem_append_left others List.mem_cons_self)
  obtain ⟨own, nonempty, slash, eq, -⟩ := Stored.exists_base h.serves.wellFormed mem
  cases FileNames.withExtension_injective eq
  exact ⟨nonempty, slash, mem⟩

/-- What is left once the first file of the batch is taken. -/
theorem took (h : Drainable size order folder queue host (asCommitted base :: first) others)
    (since : host.Later after) {content : Bytes}
    (took : Took folder base content host.tree after.tree)
    (directory : later.directory = queue.directory)
    (holds : later.candidates = .holding size order queue.directory first) :
    Drainable size order folder later after first others := by
  have serves := h.serves.follow since (took.follows h.serves.isFolder h.listed_next.2.1)
  have kept : ∀ name, name ∈ Stored.listed after.tree folder FileNames.committed ↔
      name ≠ asCommitted base ∧ name ∈ Stored.listed host.tree folder FileNames.committed :=
    fun _ => took.mem_listed_iff h.serves.wellFormed serves.wellFormed
  have distinct := h.listed.nodup_iff.mpr (Stored.nodup_listed _ _ _)
  rw [List.cons_append, List.nodup_cons] at distinct
  have listed : (first ++ others).Perm (Stored.listed after.tree folder FileNames.committed) := by
    refine (List.perm_ext_iff_of_nodup distinct.2 (Stored.nodup_listed _ _ _)).mpr ?_
    intro name
    rw [kept, ← h.listed.mem_iff, List.cons_append, List.mem_cons]
    constructor
    · intro mem
      refine ⟨?_, .inr mem⟩
      rintro rfl
      exact distinct.1 mem
    · rintro ⟨other, own | mem⟩
      · exact absurd own other
      · exact mem
  exact {
    serves := directory ▸ serves
    steady := since.steady h.steady
    accepted := directory ▸ h.accepted
    aside := directory ▸ h.aside.took since took
    candidates := directory ▸ holds
    firstAscend := h.firstAscend.of_cons
    othersAscend := h.othersAscend
    listed := listed
    takeable := by
      intro name mem
      obtain ⟨other, before⟩ := (kept name).mp mem
      exact took.takeable other (h.takeable name before)
    fits := by
      intro name mem
      rw [directory]
      exact h.fits name ((kept name).mp mem).2 }

/-- An attempt gives the first file that is due, if there is one, and leaves the others. -/
theorem step (h : Drainable size order folder queue host first others)
    {result : Except QueueError (Option Transmission)}
    (ran : queue.tryDequeue.run host = ((result, later), after)) :
    first ++ Candidates.arranged (max size.toNat 1) order others = [] ∧ result = .ok none ∨
      ∃ name names more,
        first ++ Candidates.arranged (max size.toNat 1) order others
          = name :: (names ++ Candidates.arranged (max size.toNat 1) order more) ∧
        result = Stored.given host.tree folder name ∧
        Drainable size order folder later after names more ∧
        ∀ other, other ≠ name → (∃ base, other = asCommitted base) →
          after.tree.lookup (folder ++ [other]) = host.tree.lookup (folder ++ [other]) := by
  obtain ⟨names, more, due, same, ends⟩ := h.refreshed
  have orderly : queue.candidates.Orderly size order folder queue.directory host.tree :=
    ⟨first, h.candidates, h.firstAscend,
      fun name mem => h.listed.mem_iff.mp (List.mem_append_left others mem)⟩
  have since := Program.later_run queue.tryDequeue host
  have outcome := (meets_tryDequeue h.serves (orderly.sound h.serves.wellFormed)).run
  rw [ran] at since outcome
  obtain ⟨-, directory, -⟩ := outcome.queue_eq h.serves (orderly.sound h.serves.wellFormed)
  have listed : ∀ name ∈ names, name ∈ Stored.listed host.tree folder FileNames.committed :=
    fun name mem => due.listed.mem_iff.mp (List.mem_append_left more mem)
  rw [← same]
  rcases outcome.popped h.serves due.candidates listed with ⟨-, -, why, -⟩ | ⟨left, holds, popped⟩
  · exact absurd h.aside.reaches (why h.steady h.accepted)
  cases popped with
  | nothing same =>
    rw [ends rfl]
    exact .inl ⟨Candidates.arranged_nil _ _, rfl⟩
  | passed base rest broken same =>
    have text := (due.takeable _ due.listed_next.2.2).text
    exact absurd (Utf8.isText_of_append (by decide) text) broken
  | failed e base rest same why =>
    obtain ⟨-, slash, mem⟩ := due.listed_next
    obtain ⟨-, content, modified, there⟩ := Stored.mem_listed.mp mem
    have fits := due.fits _ mem
    have gone := why h.steady h.aside.reaches fits (FileNames.fits_asTemporary slash fits)
      ((due.takeable _ mem).free base rfl)
    cases gone.symm.trans there
  | took base rest content result took answer =>
    obtain ⟨modified, there⟩ := took.there
    refine .inr ⟨asCommitted base, left, more, rfl, ?_, due.took since took directory holds, ?_⟩
    · rcases answer with read | ⟨-, why⟩
      · rw [read, Stored.given, Stored.content_eq there]
      · exact absurd ⟨h.steady, h.aside.keptInReach there⟩ why
    · rintro other different ⟨own, rfl⟩
      exact took.lookup_other different (FileNames.committed_ne_temporary _ _)

/-- What is due are all the files that are listed. -/
theorem perm_due (h : Drainable size order folder queue host first others) :
    (Stored.listed host.tree folder FileNames.committed).Perm
      (first ++ Candidates.arranged (max size.toNat 1) order others) := by
  have positive : 0 < max size.toNat 1 := Candidates.limit_pos size
  exact h.listed.symm.trans ((Candidates.perm_arranged positive others).symm.append_left first)

/-- All files are given in the order of the batches. -/
theorem drains (h : Drainable size order folder queue host first others) :
    queue.Drains folder host
      (first ++ Candidates.arranged (max size.toNat 1) order others) := by
  have listed := h.perm_due
  generalize due : first ++ Candidates.arranged (max size.toNat 1) order others = names at listed ⊢
  induction names generalizing queue host first others with
  | nil =>
    rcases h.step rfl with ⟨-, answer⟩ | ⟨name, rest, more, eq, -⟩
    · exact drains_nil (List.perm_nil.mp listed) answer
    · cases due.symm.trans eq
  | cons name names ih =>
    rcases h.step rfl with ⟨nothing, -⟩ | ⟨next, rest, more, eq, answer, left, same⟩
    · cases due.symm.trans nothing
    cases due.symm.trans eq
    have distinct := listed.nodup_iff.mp (Stored.nodup_listed _ _ _)
    refine drains_cons (Prod.ext (Prod.ext answer rfl) rfl) listed ?_ (ih left rfl left.perm_due)
    intro other mem
    have there := listed.mem_iff.mpr (List.mem_cons_of_mem _ mem)
    obtain ⟨base, -, -, eq, -⟩ := Stored.exists_base h.serves.wellFormed there
    apply same other ?_ ⟨base, eq⟩
    rintro rfl
    exact (List.nodup_cons.mp distinct).1 mem

end Drainable

/-! ### Reachable states -/

/-- The names of the batch and the names of the other files, both in order. -/
theorem exists_others
    (orderly : queue.candidates.Orderly size order folder queue.directory host.tree) :
    ∃ first others, queue.candidates = .holding size order queue.directory first ∧
      first.Pairwise (· < ·) ∧ others.Pairwise (· < ·) ∧
      (first ++ others).Perm (Stored.listed host.tree folder FileNames.committed) := by
  obtain ⟨first, holds, ascending, there⟩ := orderly
  have distinct := Stored.nodup_listed host.tree folder FileNames.committed
  obtain ⟨others, perm, inOrder⟩ := Candidates.exists_ascending
    (distinct.filter fun name => decide (name ∉ first))
  have mem : ∀ name, name ∈ others ↔
      name ∈ Stored.listed host.tree folder FileNames.committed ∧ name ∉ first := by
    intro name
    rw [perm.mem_iff, List.mem_filter, decide_eq_true_eq]
  refine ⟨first, others, holds, ascending, inOrder, ?_⟩
  refine (List.perm_ext_iff_of_nodup ?_ distinct).mpr ?_
  · rw [List.nodup_append']
    refine ⟨ascending.nodup, inOrder.nodup, ?_⟩
    intro name held other
    exact ((mem name).mp other).2 held
  · intro name
    rw [List.mem_append, mem]
    constructor
    · rintro (held | other)
      · exact there name held
      · exact other.1
    · intro listed
      by_cases held : name ∈ first
      · exact .inl held
      · exact .inr ⟨listed, held⟩

/-- A queue that is alone gives all records of its folder, whatever it has been asked for and
whatever has failed before. First come the files of its batch, then the others batch after batch.
This needs that no fault strikes any more but when a file is removed, that the system takes the
paths of the files, and that the path of the folder does not lead through a temporary name. -/
theorem drained {options : Options} {fallback : Path} {token : ProcessToken} {start ready : Host}
    (opened : (openWith options fallback token).run start = (.ok queue, ready))
    (valid : token.IsValid) (offers : ready.Offers folder)
    (reaches : ready.Reaches folder queue.directory) (requests : List Request)
    (ran : (queue.session requests ready).2 = (left, host)) (calm : host.Calm)
    (aside : host.ReachesAside folder queue.directory)
    (takeable : ∀ name ∈ Stored.listed host.tree folder FileNames.committed,
      host.tree.Takeable folder name)
    (fits : ∀ name ∈ Stored.listed host.tree folder FileNames.committed,
      Fits queue.directory name) :
    ∃ first others, left.candidates.batch = first.map queue.directory.join ∧
      first.Pairwise (· < ·) ∧ others.Pairwise (· < ·) ∧
      (first ++ others).Perm (Stored.listed host.tree folder FileNames.committed) ∧
      left.Drains folder host (first ++
        Candidates.arranged (max options.cacheSize.toNat 1) options.refillOrder others) := by
  obtain ⟨-, token, candidates, accepted⟩ := of_opened opened
  have new := Candidates.orderly_start folder queue.directory ready.tree options.cacheSize
    options.refillOrder
  rw [← candidates] at new
  have session := orderly_session requests (token ▸ valid) (offers.serves reaches) new
  rw [ran] at session
  obtain ⟨directory, serves, orderly⟩ := session
  rw [← directory] at serves orderly aside fits accepted ⊢
  obtain ⟨first, others, holds, ascending, inOrder, perm⟩ := exists_others orderly
  have drainable : Drainable options.cacheSize options.refillOrder folder left host.cleared first
      others := {
    serves := ⟨serves.wellFormed, serves.current, serves.isFolder, serves.leads⟩
    steady := host.steady_cleared
    accepted := accepted
    aside := aside
    candidates := holds
    firstAscend := ascending
    othersAscend := inOrder
    listed := perm
    takeable := takeable
    fits := fits }
  refine ⟨first, others, ?_, ascending, inOrder, perm, drainable.drains.of_cleared calm⟩
  rw [holds]
  rfl

theorem drained_of_three :
    let start := Host.quiet FileTree.empty [] 1700000000123 (.start 0)
    let options := { Options.default with cacheSize := 2, refillOrder := .highestNames }
    ∃ queue ready left host,
      (openWith options [Path.slash] ⟨"abcdefgh"⟩).run start = (.ok queue, ready) ∧
      (queue.session [.tryStore (.bare [1]), .tryStore (.bare [2]), .tryStore (.bare [3])] ready).2
        = (left, host) ∧
      (left.drain 4 host).1
        = [.ok (some (.ofBytes [2])), .ok (some (.ofBytes [3])), .ok (some (.ofBytes [1])),
          .ok none] := by
  intro start options
  let queue : Queue := ⟨[Path.slash], ⟨"abcdefgh"⟩, 0, Limits.storage.choose none, 0,
    Candidates.start 2 .highestNames, options.deleteRetry⟩
  let ready := ((openWith options [Path.slash] ⟨"abcdefgh"⟩).run start).2
  let requests : List Request :=
    [.tryStore (.bare [1]), .tryStore (.bare [2]), .tryStore (.bare [3])]
  let ended := (queue.session requests ready).2
  let drawn : Nat → Name := fun number =>
    FileNames.generated 1700000000123 ⟨"abcdefgh"⟩ (UInt64.ofNat number)
  let stored := fun number => asCommitted (drawn number)
  have opened : (openWith options [Path.slash] ⟨"abcdefgh"⟩).run start = (.ok queue, ready) :=
    Program.run_eq (by decide +kernel)
  have quiet : start.Offers [] := Host.offers_quiet 1700000000123 (.start 0)
  have reaches : start.Reaches [] (options.directory.getD [Path.slash]) := by decide +kernel
  have plain : start.tree.IsPlain [] (checkName ⟨"abcdefgh"⟩) := by
    intro node there
    cases (FileTree.lookup_empty (List.cons_ne_nil _ [])).symm.trans there
  have checked : Checked [] ⟨"abcdefgh"⟩ start.tree ready.tree :=
    (meets_openWith (quiet.serves reaches) reaches (by decide) plain).cut (Program.cutAt_run _ _)
  have offers : ready.Offers [] :=
    quiet.follow (Program.later_run _ start) (checked.follows (by decide) plain rfl)
  have ran : (queue.session requests ready).2 = (ended.1, ended.2) := (Prod.mk.eta).symm
  have later : start.Later ended.2 :=
    (Program.later_run _ start).trans (later_session requests queue ready)
  have faultless := later.faultless (Host.faultless_quiet _ [] 1700000000123 (.start 0))
  have found : Stored.listed ended.2.tree [] FileNames.committed = [2, 1, 0].map stored ∧
      ended.1.candidates.batch = [] ∧ ended.2.tree.lookup [] = some .directory ∧
      ∀ number ∈ [2, 1, 0], ended.2.tree.lookup [asTemporary (drawn number)] = none := by
    decide +kernel
  obtain ⟨listed, empty, root, free⟩ := found
  have named : ∀ number ∈ [2, 1, 0], Utf8.isText (stored number) = true ∧
      FileTree.refusal? (queue.directory.join (stored number)) = none ∧
      (stored number).length ≤ FileTree.maxNameLength := by decide +kernel
  have takeable : ∀ name ∈ Stored.listed ended.2.tree [] FileNames.committed,
      ended.2.tree.Takeable [] name ∧ Fits queue.directory name := by
    intro name mem
    rw [listed] at mem
    obtain ⟨number, among, rfl⟩ := List.mem_map.mp mem
    obtain ⟨text, accepted, short⟩ := named number among
    refine ⟨FileTree.takeable_asCommitted text ?_, accepted, short⟩
    exact fun there => nomatch (free number among).symm.trans there
  have aside : ended.2.ReachesAside [] queue.directory :=
    Host.reachesAside_of_root root (by decide +kernel)
  obtain ⟨first, others, batch, -, ascending, perm, drains⟩ :=
    drained opened (by decide) offers (by decide +kernel) requests ran
      (fun number op _ _ => faultless number op) aside (fun name mem => (takeable name mem).1)
      fun name mem => (takeable name mem).2
  have none : first = [] := by
    rw [empty] at batch
    exact List.map_eq_nil_iff.mp batch.symm
  subst none
  have order : others = [0, 1, 2].map stored := by
    rw [listed] at perm
    have ordered : ([0, 1, 2].map stored).Pairwise (· < ·) := by decide +kernel
    exact (perm.trans (by decide +kernel)).eq_of_pairwise' ascending ordered
  have answers := drains.answers
  rw [order] at answers
  refine ⟨queue, ready, ended.1, ended.2, opened, ran, answers.trans ?_⟩
  decide +kernel

/-! ### Records that are withheld -/

/-- A record that can be taken, as far as its name tells, is not given by a new queue. -/
def Withholds (start : Host) (directory : Path) (name : Name) : Prop :=
  start.Offers [] ∧ start.Reaches [] directory ∧
    ∃ queue ready, (openWith .default directory ⟨"abcdefgh"⟩).run start = (.ok queue, ready) ∧
      Stored.listed ready.tree [] FileNames.committed = [name] ∧ ready.tree.Takeable [] name ∧
      Stored.given ready.tree [] name = .ok (some (.ofBytes [0x41])) ∧
      (queue.tryDequeue.run ready).1.1 ≠ Stored.given ready.tree [] name

/-- The record of one byte. -/
def smallRecord : Bytes :=
  Utf8.encode "\x7b\"format\":1,\"kind\":\"bytes\",\"len\":1\x7d\nA"

/-- A folder with one record. -/
def recordAlone (base : Name) : FileTree :=
  FileTree.empty.insert ([] ++ [asCommitted base]) (.file smallRecord 0)

theorem lookup_recordAlone (base name : Name) : (recordAlone base).lookup ([] ++ [name])
    = if name = asCommitted base then some (.file smallRecord 0) else none := by
  rw [recordAlone, FileTree.sets_insert]
  simp [FileTree.lookup_empty]

theorem isPlain_recordAlone (base name : Name) : (recordAlone base).IsPlain [] name := by
  intro node there
  rw [lookup_recordAlone] at there
  split at there
  · cases there
    rfl
  · cases there

theorem wellFormed_recordAlone (slash : Path.slash ∉ base) : (recordAlone base).WellFormed := by
  have nothing : FileTree.empty.lookup ([] ++ [asCommitted base]) ≠ some .directory := by
    have free := FileTree.lookup_empty (List.cons_ne_nil (asCommitted base) [])
    rw [List.nil_append, free]
    exact (Option.some_ne_none _).symm
  have proper := FileNames.isProper_withExtension FileNames.committed_mem_extensions slash
  exact (Host.offers_quiet 0 (.start 0)).wellFormed.insert proper rfl nothing _

/-- The record is the only file that is listed. -/
theorem listed_recordAlone {tree : FileTree} (nonempty : base ≠ []) (slash : Path.slash ∉ base)
    (wf : tree.WellFormed)
    (same : ∀ other, tree.lookup ([] ++ [asCommitted other])
      = (recordAlone base).lookup ([] ++ [asCommitted other])) :
    Stored.listed tree [] FileNames.committed = [asCommitted base] := by
  apply List.perm_singleton.mp
  refine (List.perm_ext_iff_of_nodup (Stored.nodup_listed _ _ _) (List.nodup_singleton _)).mpr ?_
  intro name
  rw [List.mem_singleton]
  constructor
  · intro mem
    obtain ⟨other, -, -, rfl, content, modified, there⟩ := Stored.exists_base wf mem
    rw [same, lookup_recordAlone] at there
    split at there
    · assumption
    · cases there
  · rintro rfl
    have there : tree.lookup ([] ++ [asCommitted base]) = some (.file smallRecord 0) := by
      rw [same, lookup_recordAlone, if_pos rfl]
    have has := FileNames.hasExtension_withExtension nonempty slash
      FileNames.committed_mem_extensions
    exact Stored.mem_listed.mpr ⟨has, smallRecord, 0, there⟩

/-- A queue can be opened on the record, and the record and its temporary name stay as they are. -/
theorem exists_opened_alone (slash : Path.slash ∉ base)
    (reaches : (Host.quiet (recordAlone base) [] 1700000000123 (.start 0)).Reaches [] directory)
    (accepted : FileTree.refusal? directory = none)
    (fits : Fits directory (checkName ⟨"abcdefgh"⟩)) :
    ∃ size ready, (openWith .default directory ⟨"abcdefgh"⟩).run
        (Host.quiet (recordAlone base) [] 1700000000123 (.start 0))
          = (.ok (ofDefaults directory ⟨"abcdefgh"⟩ size), ready) ∧
      ready.Serves [] directory ∧
      ∀ extension ∈ FileNames.extensions, ∀ other,
        ready.tree.lookup ([] ++ [FileNames.withExtension other extension])
          = (recordAlone base).lookup ([] ++ [FileNames.withExtension other extension]) := by
  have offers : (Host.quiet (recordAlone base) [] 1700000000123 (.start 0)).Offers [] :=
    ⟨wellFormed_recordAlone slash, rfl, rfl⟩
  have serves := offers.serves reaches
  have valid : ProcessToken.IsValid ⟨"abcdefgh"⟩ := by decide
  have plain : (recordAlone base).IsPlain [] (checkName ⟨"abcdefgh"⟩) := isPlain_recordAlone _ _
  have outcome : OpenOutcome .default directory ⟨"abcdefgh"⟩ [] _ _ _ :=
    (meets_openWith serves reaches valid plain).run
  have since := Program.later_run (openWith .default directory ⟨"abcdefgh"⟩)
    (Host.quiet (recordAlone base) [] 1700000000123 (.start 0))
  generalize (openWith .default directory ⟨"abcdefgh"⟩).run _ = opened at outcome since ⊢
  obtain ⟨result, ready⟩ := opened
  cases outcome with
  | refused e checked why => exact absurd fits (why (fun _ _ => rfl) accepted)
  | opened size sets reached =>
    have follows := sets.follows (fun found => by simpa [Node.kind] using plain _ found)
      offers.isFolder (by simp)
    refine ⟨size, ready, rfl, serves.follow since follows, ?_⟩
    intro extension mem other
    apply sets.lookup_sibling
    exact fun same => FileNames.append_bytes_ne_withExtension _ valid mem same.symm

/-- A path that is too long for a record may be short enough for the file that is made to find
out whether the folder can be written. -/
theorem withholds_of_unfit (nonempty : base ≠ []) (slash : Path.slash ∉ base)
    (text : Utf8.isText (asCommitted base) = true)
    (reaches : (Host.quiet (recordAlone base) [] 1700000000123 (.start 0)).Reaches [] directory)
    (accepted : FileTree.refusal? directory = none)
    (fits : Fits directory (checkName ⟨"abcdefgh"⟩))
    (unfit : ¬ Fits directory (asCommitted base)) :
    Withholds (Host.quiet (recordAlone base) [] 1700000000123 (.start 0)) directory
      (asCommitted base) := by
  obtain ⟨size, ready, opened, serves, kept⟩ :=
    exists_opened_alone slash reaches accepted fits
  have listed := listed_recordAlone nonempty slash serves.wellFormed
    (kept _ FileNames.committed_mem_extensions)
  have there : ready.tree.lookup ([] ++ [asCommitted base]) = some (.file smallRecord 0) := by
    rw [kept _ FileNames.committed_mem_extensions, lookup_recordAlone, if_pos rfl]
  have free : ready.tree.lookup ([] ++ [asTemporary base]) ≠ some .directory := by
    have other := FileNames.committed_ne_temporary base base
    rw [kept _ FileNames.temporary_mem_extensions, lookup_recordAlone, if_neg other.symm]
    exact (Option.some_ne_none _).symm
  have given : Stored.given ready.tree [] (asCommitted base) = .ok (some (.ofBytes [0x41])) := by
    rw [Stored.given, Stored.content_eq there]
    decide +kernel
  let queue : Queue := .ofDefaults directory ⟨"abcdefgh"⟩ size
  have sound : queue.candidates.Sound [] queue.directory ready.tree :=
    Candidates.sound_start _ _ _ _ _
  refine ⟨⟨wellFormed_recordAlone slash, rfl, rfl⟩, reaches, queue, ready, opened, listed,
    FileTree.takeable_asCommitted text free, given, ?_⟩
  have all : [asCommitted base].Perm (Stored.listed ready.tree [] FileNames.committed) :=
    .of_eq listed.symm
  have outcome : DequeueOutcome queue [] ready _ _ := (meets_tryDequeue serves sound).run
  have batch : queue.candidates.refreshed ready.tree [] queue.directory
      = .holding Options.default.cacheSize Options.default.refillOrder queue.directory
        [asCommitted base] := by
    rw [← Candidates.retained_singleton (Candidates.limit_pos _)
      Options.default.refillOrder (asCommitted base)]
    exact Candidates.refreshed_holding_nil serves.wellFormed all (List.pairwise_singleton _ _)
  have withheld := outcome.withheld serves batch (fun name => all.mem_iff.mp) unfit
  intro answer
  rw [answer, given] at withheld
  cases withheld.2

/-- What is withheld can also be found out by running. -/
theorem withholds_of_run {start : Host} (size : UInt64) (offers : start.Offers [])
    (ran : let queue := ofDefaults directory ⟨"abcdefgh"⟩ size
      let opened := (openWith .default directory ⟨"abcdefgh"⟩).run start
      start.Reaches [] directory ∧ Utf8.isText (asCommitted base) = true ∧ opened.1 = .ok queue ∧
        Stored.listed opened.2.tree [] FileNames.committed = [asCommitted base] ∧
        opened.2.tree.lookup [asTemporary base] ≠ some .directory ∧
        Stored.given opened.2.tree [] (asCommitted base) = .ok (some (.ofBytes [0x41])) ∧
        (queue.tryDequeue.run opened.2).1.1 ≠ .ok (some (.ofBytes [0x41]))) :
    Withholds start directory (asCommitted base) := by
  obtain ⟨reaches, text, opened, listed, free, given, withheld⟩ := ran
  exact ⟨offers, reaches, _, _, Program.run_eq opened, listed,
    FileTree.takeable_asCommitted text free, given, given ▸ withheld⟩

/-- The path of a record may be too long for the system. The path of the folder may lead through
a link that gives way to the record. A fault may strike when the name of the record changes. -/
theorem withholds_records :
    let long : Name := List.replicate 251 0x61
    let slashes : Path := List.replicate 3900 Path.slash
    let short : Name := [0x61]
    let linked := (recordAlone short).insert [asTemporary short] (.link [Path.dot])
    let host := fun tree => Host.quiet tree [] 1700000000123 (.start 0)
    let denied := fun (_ : Nat) (op : FileOp) =>
      match op with
      | .rename _ _ => some IoError.busy
      | _ => none
    Withholds (host (recordAlone long)) slashes (asCommitted long) ∧
      Withholds (host linked) (Path.slash :: asTemporary short) (asCommitted short) ∧
      Withholds { host (recordAlone short) with fault := denied } [Path.slash]
        (asCommitted short) := by
  intro long slashes short linked host denied
  have alone := wellFormed_recordAlone (show Path.slash ∉ short by decide)
  have temporary : (asTemporary short).IsProper :=
    FileNames.isProper_withExtension FileNames.temporary_mem_extensions (by decide)
  have root : (recordAlone short).lookup [] = some .directory := rfl
  have link : linked.WellFormed := alone.insert temporary root (by decide +kernel) _
  have unfit : FileTree.refusal? (slashes.join (asCommitted long)) ≠ none := by decide +kernel
  refine ⟨?_, ?_, ?_⟩
  · exact withholds_of_unfit (by decide) (by decide) (by decide +kernel) (by decide +kernel)
      (by decide +kernel) ⟨by decide +kernel, by decide +kernel⟩ fun fits => unfit fits.accepted
  · exact withholds_of_run 37 ⟨link, rfl, rfl⟩ (by decide +kernel)
  · exact withholds_of_run 37 ⟨alone, rfl, rfl⟩ (by decide +kernel)

end Queue
end DiskQueue
