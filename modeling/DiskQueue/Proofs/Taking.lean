/-
Module: DiskQueue.Proofs.Taking
Purpose: What an attempt to take a record does to the folder of a queue, at its end
  and wherever it is cut off.
Trusted boundary: none
Main exports:
  Stored.listed, Stored.meets_names, Candidates.sorted_listed, Candidates.tried_next,
  Candidates.Sound, Candidates.refreshed, FileTree.Took, Queue.KeptInReach,
  Queue.DequeueOutcome, Queue.meets_tryDequeue
-/
import DiskQueue.Proofs.FileNames
import DiskQueue.Proofs.Serving
import DiskQueue.Queue

namespace DiskQueue

open FileTree (Fits Sets Moves Follows)
open FileNames (asCommitted asTemporary)

/-!
To take a record a queue claims the first name of its batch, which may be old, and gives
the file of that name a temporary one. Whoever succeeds in that has the record, and
nobody else gets it. Then the file is read and removed; whether or not that succeeds, it
does not become a record again.
-/

/-! ### Names that are listed -/

/-- The names of a row are distinct. -/
theorem Forest.nodup_entries {α : Type} {forest : Forest α} (h : forest.Distinct) :
    (forest.entries.map Prod.fst).Nodup := by
  induction forest with
  | nil => exact List.nodup_nil
  | cons name value below next _ ih =>
    cases value with
    | none => exact ih h.2.2
    | some value =>
      rw [Forest.entries, List.map_cons, List.nodup_cons]
      refine ⟨?_, ih h.2.2⟩
      intro mem
      obtain ⟨⟨_, _⟩, there, rfl⟩ := List.mem_map.mp mem
      exact h.1 (Forest.mem_names_of_mem_entries there)

namespace Stored

variable {folder : Key} {directory : Path} {host : Host} {tree : FileTree} {name : Name}

/-- The names of the files with an extension in a folder. -/
def listed (tree : FileTree) (folder : Key) (extension : Name) : List Name :=
  select extension ((tree.children folder).map fun child => (child.1, child.2.kind))

theorem mem_listed {extension : Name} :
    name ∈ listed tree folder extension ↔
      FileNames.hasExtension name extension = true ∧
        ∃ content modified, tree.lookup (folder ++ [name]) = some (.file content modified) := by
  simp only [listed, select, List.mem_map, List.mem_filter, Bool.and_eq_true, decide_eq_true_eq]
  constructor
  · rintro ⟨_, ⟨⟨⟨name, node⟩, mem, rfl⟩, has, kind⟩, rfl⟩
    rw [FileTree.mem_children_iff] at mem
    cases node with
    | file content modified => exact ⟨has, content, modified, mem⟩
    | directory => cases kind
    | link target => cases kind
  · rintro ⟨has, content, modified, there⟩
    exact ⟨_, ⟨⟨_, FileTree.mem_children_iff.mpr there, rfl⟩, has, rfl⟩, rfl⟩

/-- No file is listed twice. -/
theorem nodup_listed (tree : FileTree) (folder : Key) (extension : Name) :
    (listed tree folder extension).Nodup := by
  have names := Forest.nodup_entries (tree.distinct_branchAt folder)
  apply List.Nodup.sublist (List.filter_sublist.map Prod.fst)
  rw [List.map_map]
  exact names

/-- What is listed has a base name before its extension. -/
theorem exists_base {extension : Name} (wf : tree.WellFormed)
    (mem : name ∈ listed tree folder extension) :
    ∃ base, base ≠ [] ∧ Path.slash ∉ base ∧ name = FileNames.withExtension base extension ∧
      ∃ content modified, tree.lookup (folder ++ [name]) = some (.file content modified) := by
  obtain ⟨has, content, modified, there⟩ := mem_listed.mp mem
  have proper := wf.proper there
  obtain ⟨base, nonempty, rfl, -⟩ := FileNames.eq_withExtension proper has
  refine ⟨base, nonempty, fun slash => ?_, rfl, content, modified, there⟩
  exact proper.slash (List.mem_append_left _ slash)

variable {cut : FileTree → Prop}

/-- Names are listed unless the directory is not there. -/
theorem meets_names (extension : Name) (serves : host.Serves folder directory)
    (here : cut host.tree) :
    Program.Meets cut
      (fun result after => after.tree = host.tree ∧
        match result with
        | .error _ => host.Steady → FileTree.refusal? directory = none →
            ¬ host.Reaches folder directory
        | .ok names => host.Reaches folder directory ∧ FileTree.refusal? directory = none ∧
            names = listed host.tree folder extension)
      (names directory extension) host := by
  apply Program.Meets.list serves here
  · intro e after later same why
    exact Program.Meets.done (by rwa [same]) ⟨same, why⟩
  · intro after later same reaches accepted
    exact Program.Meets.done (by rwa [same]) ⟨same, reaches, accepted, rfl⟩

theorem meets_paths (extension : Name) (serves : host.Serves folder directory)
    (here : cut host.tree) :
    Program.Meets cut
      (fun result after => after.tree = host.tree ∧
        match result with
        | .error _ => host.Steady → FileTree.refusal? directory = none →
            ¬ host.Reaches folder directory
        | .ok paths => host.Reaches folder directory ∧ FileTree.refusal? directory = none ∧
            paths = (listed host.tree folder extension).map directory.join)
      (paths directory extension) host := by
  apply (meets_names extension serves here).bind
  rintro result after later here ⟨same, found⟩
  cases result with
  | error e => exact Program.Meets.done here ⟨same, found⟩
  | ok names => exact Program.Meets.done here ⟨same, found.1, found.2.1, by rw [found.2.2]⟩

end Stored

/-! ### Candidates -/

namespace Candidates

variable {folder : Key} {directory : Path} {host : Host} {tree after : FileTree} {base : Name}
  {candidates : Candidates} {cut : FileTree → Prop}

/-- A batch may hold a name. -/
theorem limit_pos (size : UInt64) : 0 < max size.toNat 1 :=
  Nat.lt_of_lt_of_le Nat.one_pos (Nat.le_max_right _ _)

/-- Sorted paths ascend. -/
theorem pairwise_sorted (paths : List Path) : (Candidates.sorted paths).Pairwise (· ≤ ·) := by
  have sorted : (Candidates.sorted paths).Pairwise fun a b => atMost a b = true := by
    refine List.pairwise_mergeSort ?_ ?_ paths
    · intro a b c ab bc
      exact decide_eq_true (List.le_trans (of_decide_eq_true ab) (of_decide_eq_true bc))
    · intro a b
      rw [Bool.or_eq_true, atMost, atMost, decide_eq_true_eq, decide_eq_true_eq]
      exact List.le_total a b
  exact sorted.imp of_decide_eq_true

/-- What is in order needs no sorting. -/
theorem sorted_eq {paths ordered : List Path} (perm : paths.Perm ordered)
    (ascending : ordered.Pairwise (· < ·)) : Candidates.sorted paths = ordered := by
  refine List.Perm.eq_of_pairwise (fun _ _ _ _ => List.le_antisymm)
    (pairwise_sorted paths) (ascending.imp List.le_of_lt) ?_
  exact (List.mergeSort_perm _ _).trans perm

/-- The paths of all files that are listed are in order if their names are. -/
theorem sorted_listed {names : List Name} (wf : tree.WellFormed)
    (perm : names.Perm (Stored.listed tree folder FileNames.committed))
    (ascending : names.Pairwise (· < ·)) :
    Candidates.sorted ((Stored.listed tree folder FileNames.committed).map directory.join)
      = names.map directory.join := by
  have proper : ∀ name ∈ names, name.IsProper := by
    intro name mem
    obtain ⟨-, content, modified, there⟩ := Stored.mem_listed.mp (perm.mem_iff.mp mem)
    exact wf.proper there
  refine sorted_eq (perm.symm.map _) ?_
  rw [List.pairwise_map]
  apply ascending.imp_of_mem
  intro a b ha hb lower
  exact Path.join_lt_join directory (proper a ha) (proper b hb) lower

/-- The first path of a batch becomes a claim, unless its name is no text or is claimed
already. -/
def next (candidates : Candidates) : Option Claim × Candidates :=
  match candidates.batch with
  | [] => (none, candidates)
  | path :: rest =>
    match FileNames.baseName? path with
    | none => (none, { candidates with batch := rest })
    | some base =>
      if candidates.isClaimed base then (none, { candidates with batch := rest })
      else
        (some ⟨path, base⟩, { candidates with batch := rest, claimed := base :: candidates.claimed })

/-- What comes of trying the first path of a batch. -/
inductive Tried (candidates : Candidates) : Option Claim × Candidates → Prop
  | nothing (empty : candidates.batch = []) : Tried candidates (none, candidates)
  | dropped (path : Path) (rest : List Path) (batch : candidates.batch = path :: rest)
      (why : ∀ base, FileNames.baseName? path = some base → candidates.isClaimed base = true) :
      Tried candidates (none, { candidates with batch := rest })
  | claimed (path : Path) (rest : List Path) (base : Name) (batch : candidates.batch = path :: rest)
      (name : FileNames.baseName? path = some base) (free : candidates.isClaimed base = false) :
      Tried candidates
        (some ⟨path, base⟩, { candidates with batch := rest, claimed := base :: candidates.claimed })

/-- The first path is tried, whatever comes of it. -/
theorem tried_next (candidates : Candidates) : candidates.Tried candidates.next := by
  unfold next
  cases batch : candidates.batch with
  | nil => exact .nothing batch
  | cons path rest =>
    cases name : FileNames.baseName? path with
    | none =>
      simp only [name]
      exact .dropped path rest batch (by simp [name])
    | some base =>
      simp only [name]
      split
      · rename_i claimed
        refine .dropped path rest batch ?_
        rintro other same
        cases name.symm.trans same
        exact claimed
      · rename_i free
        exact .claimed path rest base batch name (Bool.eq_false_iff.mpr free)

/-- A batch that is empty is made anew from the files of the folder. -/
def refreshed (tree : FileTree) (folder : Key) (directory : Path) (candidates : Candidates) :
    Candidates :=
  if candidates.batch = [] then
    { candidates with
      batch := batchOf candidates.limit candidates.order
        ((Stored.listed tree folder FileNames.committed).map directory.join) }
  else candidates

/-- A batch is made of all paths that are found. -/
theorem run_refill (candidates : Candidates) {paths : List Path}
    (found : ((Stored.paths directory FileNames.committed).run host).1 = .ok paths) :
    (candidates.refill directory).run host
      = (.ok { candidates with batch := batchOf candidates.limit candidates.order paths },
        ((candidates.refill directory).run host).2) := by
  apply Program.run_eq
  rw [refill, Program.run_andThen, found]
  rfl

theorem meets_pop (candidates : Candidates) (here : cut host.tree) :
    Program.Meets cut (fun outcome after => after.tree = host.tree ∧ outcome = candidates.next)
      candidates.pop host := by
  unfold pop next
  cases batch : candidates.batch with
  | nil => exact Program.Meets.done here ⟨rfl, rfl⟩
  | cons path rest =>
    cases name : FileNames.baseName? path with
    | none =>
      simp only [name]
      exact Program.Meets.done here ⟨rfl, rfl⟩
    | some base =>
      by_cases claimed : candidates.isClaimed base
      · simp only [name, if_pos claimed]
        exact Program.Meets.logged here fun after later same => ⟨same, rfl⟩
      · simp only [name, if_neg claimed]
        exact Program.Meets.done here ⟨rfl, rfl⟩

theorem meets_refill (candidates : Candidates) (serves : host.Serves folder directory)
    (here : cut host.tree) :
    Program.Meets cut
      (fun result after => after.tree = host.tree ∧
        match result with
        | .error _ => host.Steady → FileTree.refusal? directory = none →
            ¬ host.Reaches folder directory
        | .ok refilled => refilled = { candidates with
            batch := batchOf candidates.limit candidates.order
              ((Stored.listed host.tree folder FileNames.committed).map directory.join) })
      (candidates.refill directory) host := by
  apply (Stored.meets_paths FileNames.committed serves here).bind
  rintro result after later here ⟨same, found⟩
  cases result with
  | error e => exact Program.Meets.done here ⟨same, found⟩
  | ok paths =>
    obtain ⟨-, -, rfl⟩ := found
    exact Program.Meets.logged here fun told laterTold sameTold => ⟨sameTold.trans same, rfl⟩

/-- The next claim is that of the refreshed batch, unless the directory cannot be listed. -/
theorem meets_take (candidates : Candidates) (serves : host.Serves folder directory)
    (here : cut host.tree) :
    Program.Meets cut
      (fun outcome after => after.tree = host.tree ∧
        ((∃ e, outcome = (.error e, candidates) ∧ candidates.batch = [] ∧
            (host.Steady → FileTree.refusal? directory = none →
              ¬ host.Reaches folder directory)) ∨
          outcome = (.ok (candidates.refreshed host.tree folder directory).next.1,
            (candidates.refreshed host.tree folder directory).next.2)))
      (candidates.take directory) host := by
  unfold take
  split
  · rename_i empty
    apply (meets_refill candidates serves here).bind
    rintro result after later here ⟨same, refilled⟩
    cases result with
    | error e => exact Program.Meets.done here ⟨same, .inl ⟨e, rfl, empty, refilled⟩⟩
    | ok fresh =>
      have eq : candidates.refreshed host.tree folder directory = fresh :=
        (if_pos empty).trans refilled.symm
      rw [eq]
      apply (meets_pop fresh here).bind
      rintro outcome popped laterPopped here ⟨samePopped, rfl⟩
      exact Program.Meets.done here ⟨samePopped.trans same, .inr rfl⟩
  · rename_i kept
    have eq : candidates.refreshed host.tree folder directory = candidates := if_neg kept
    rw [eq]
    apply (meets_pop candidates here).bind
    rintro outcome after later here ⟨same, rfl⟩
    exact Program.Meets.done here ⟨same, .inr rfl⟩

/-- Paths of files, or of what has been files when they were listed, and no claims. -/
structure Sound (folder : Key) (directory : Path) (tree : FileTree) (candidates : Candidates) :
    Prop where
  unclaimed : candidates.claimed = []
  batch : ∀ path ∈ candidates.batch, ∃ base, base ≠ [] ∧ Path.slash ∉ base ∧
    path = FileNames.committedPath directory base ∧ tree.IsPlain folder (asCommitted base)

theorem sound_start (folder : Key) (directory : Path) (tree : FileTree) (size : UInt64)
    (order : RefillOrder) : (start size order).Sound folder directory tree :=
  ⟨rfl, by simp [start]⟩

theorem Sound.follow (h : candidates.Sound folder directory tree)
    (follows : Follows folder tree after) : candidates.Sound folder directory after := by
  refine ⟨h.unclaimed, ?_⟩
  intro path mem
  obtain ⟨base, nonempty, slash, eq, plain⟩ := h.batch path mem
  exact ⟨base, nonempty, slash, eq, follows.isPlain plain⟩

/-- A file that is listed gives its name to a path of the batch. -/
theorem Sound.refreshed (h : candidates.Sound folder directory tree) (wf : tree.WellFormed) :
    (candidates.refreshed tree folder directory).Sound folder directory tree := by
  unfold Candidates.refreshed
  split
  · refine ⟨h.unclaimed, ?_⟩
    intro path mem
    obtain ⟨name, listed, rfl⟩ := List.mem_map.mp (mem_of_mem_batchOf mem)
    obtain ⟨base, nonempty, slash, rfl, content, modified, there⟩ := Stored.exists_base wf listed
    exact ⟨base, nonempty, slash, rfl, FileTree.isPlain_of_file there⟩
  · exact h

/-- What a claim is made of, and what is left of the candidates once it is given back. -/
theorem Sound.next (h : candidates.Sound folder directory tree) :
    (∀ claim, candidates.next.1 = some claim →
      ∃ base, claim = ⟨FileNames.committedPath directory base, base⟩ ∧ base ≠ [] ∧
        Path.slash ∉ base ∧ tree.IsPlain folder (asCommitted base) ∧
        (candidates.next.2.release base).Sound folder directory tree) ∧
    (candidates.next.1 = none → candidates.next.2.Sound folder directory tree) := by
  have tried := candidates.tried_next
  generalize candidates.next = outcome at tried ⊢
  cases tried with
  | nothing empty => exact ⟨by simp, fun _ => h⟩
  | dropped path rest batch why =>
    refine ⟨by simp, fun _ => ⟨h.unclaimed, fun other mem => h.batch other ?_⟩⟩
    exact batch ▸ List.mem_cons_of_mem path mem
  | claimed path rest read batch name free =>
    refine ⟨?_, by simp⟩
    rintro claim ⟨⟩
    obtain ⟨base, nonempty, slash, rfl, plain⟩ := h.batch path (batch ▸ List.mem_cons_self)
    cases FileNames.eq_of_baseName?_join nonempty slash FileNames.committed_mem_extensions name
    refine ⟨read, rfl, nonempty, slash, plain, by simp [release, h.unclaimed], ?_⟩
    exact fun other mem => h.batch other (batch ▸ List.mem_cons_of_mem _ mem)

end Candidates

/-! ### Reading and removing -/

namespace FileTree

variable {folder : Key} {base : Name} {content : Bytes} {before after : FileTree}

/-- A record has lost its name. Under its temporary name there may be a file. -/
structure Took (folder : Key) (base : Name) (content : Bytes) (before after : FileTree) : Prop where
  there : ∃ modified, before.lookup (folder ++ [asCommitted base]) = some (.file content modified)
  notDirectory : before.lookup (folder ++ [asTemporary base]) ≠ some .directory
  left : ∃ node? : Option Node, (∀ node, node? = some node → node.kind = .file) ∧
    ∀ key, after.lookup key
      = if key = folder ++ [asTemporary base] then node?
        else if key = folder ++ [asCommitted base] then none
        else before.lookup key

theorem Took.lookup_committed (h : Took folder base content before after) :
    after.lookup (folder ++ [asCommitted base]) = none := by
  obtain ⟨node?, -, lookup⟩ := h.left
  have other := FileNames.committed_ne_temporary base base
  rw [lookup, if_neg (by simpa using other), if_pos rfl]

theorem Took.lookup_key (h : Took folder base content before after) {key : Key}
    (committed : key ≠ folder ++ [asCommitted base])
    (temporary : key ≠ folder ++ [asTemporary base]) : after.lookup key = before.lookup key := by
  obtain ⟨node?, -, lookup⟩ := h.left
  rw [lookup, if_neg temporary, if_neg committed]

theorem Took.lookup_other (h : Took folder base content before after) {name : Name}
    (committed : name ≠ asCommitted base) (temporary : name ≠ asTemporary base) :
    after.lookup (folder ++ [name]) = before.lookup (folder ++ [name]) :=
  h.lookup_key (by simpa using committed) (by simpa using temporary)

/-- Taking a record leaves every other record. -/
theorem Took.lookup_committed_other (h : Took folder base content before after) {name : Name}
    (different : name ≠ base) :
    after.lookup (folder ++ [asCommitted name]) = before.lookup (folder ++ [asCommitted name]) :=
  h.lookup_other (fun same => different (FileNames.withExtension_injective same))
    (FileNames.committed_ne_temporary _ _)

/-- Taking a record is losing one name and changing another. -/
theorem Took.follows (h : Took folder base content before after)
    (here : before.lookup folder = some .directory) (slash : Path.slash ∉ base) :
    Follows folder before after := by
  obtain ⟨modified, there⟩ := h.there
  obtain ⟨node?, file, lookup⟩ := h.left
  have lost := sets_erase before folder (asCommitted base)
  have gained : Sets folder (asTemporary base) node?
      (before.erase (folder ++ [asCommitted base])) after := by
    intro key
    rw [lookup, lost]
  refine (lost.follows (by simp [there]) here (by simp)).trans (gained.follows ?_ ?_ ?_)
  · rw [lost]
    split
    · simp
    · exact h.notDirectory
  · rw [lost.lookup_other (ne_append_singleton _ _)]
    exact here
  · intro node made
    exact ⟨file node made,
      FileNames.isProper_withExtension FileNames.temporary_mem_extensions slash⟩

theorem took_of_moves {modified : Int}
    (there : before.lookup (folder ++ [asCommitted base]) = some (.file content modified))
    (notDirectory : before.lookup (folder ++ [asTemporary base]) ≠ some .directory)
    (moves : Moves folder (asCommitted base) (asTemporary base) before after) :
    Took folder base content before after := by
  refine ⟨⟨modified, there⟩, notDirectory, some (.file content modified), ?_, ?_⟩
  · rintro node ⟨⟩
    rfl
  · intro key
    rw [moves, there]

/-- Removing the file does not change what has been taken. -/
theorem Took.trans {mid : FileTree} (h : Took folder base content before mid)
    (removed : Sets folder (asTemporary base) none mid after) :
    Took folder base content before after := by
  obtain ⟨node?, -, lookup⟩ := h.left
  refine ⟨h.there, h.notDirectory, none, by simp, ?_⟩
  intro key
  rw [removed]
  split
  · rfl
  · rename_i other
    rw [lookup, if_neg other]

end FileTree

open FileTree (Took)

namespace Stored

/-- What reading the content of a file comes to. -/
def decoded (content : Bytes) : Except QueueError Transmission :=
  match Record.decode content with
  | .error e => .error (.ofDecodeError e)
  | .ok transmission => .ok transmission

theorem meets_readRecord {folder : Key} {directory : Path} {host : Host} {name : Name}
    {content : Bytes} {modified : Int} {cut : FileTree → Prop}
    (serves : host.Serves folder directory) (here : cut host.tree) (hname : name.IsProper)
    (there : host.tree.lookup (folder ++ [name]) = some (.file content modified)) :
    Program.Meets cut
      (fun result after => after.tree = host.tree ∧
        (result = decoded content ∨ (∃ e, result = .error e) ∧
          (host.Steady → host.Reaches folder directory → ¬ Fits directory name)))
      (readRecord (directory.join name)) host := by
  apply Program.Meets.read serves here hname there
  · intro e after later same why
    exact Program.Meets.done (by rwa [same]) ⟨same, .inr ⟨⟨_, rfl⟩, why⟩⟩
  · intro after later same
    have here : cut after.tree := by rwa [same]
    unfold decoded
    cases read : Record.decode content with
    | error e =>
      simp only [read]
      exact Program.Meets.done here ⟨same, .inl rfl⟩
    | ok transmission =>
      simp only [read]
      exact Program.Meets.done here ⟨same, .inl rfl⟩

end Stored

namespace Queue

variable {queue : Queue} {folder : Key} {host : Host} {directory : Path} {name : Name}
  {cut : FileTree → Prop}

/-- Whether an entry is as it was or gone, and all else is as it was. -/
def MayRemove (folder : Key) (name : Name) (before after : FileTree) : Prop :=
  after = before ∨ Sets folder name none before after

/-- Removing a file may fail, and leaves all else as it is. -/
theorem meets_removeOnce (serves : host.Serves folder directory) (hname : name.IsProper) :
    Program.Meets (MayRemove folder name host.tree)
      (fun result after => MayRemove folder name host.tree after.tree ∧
        ((∃ e, result = .error e) → after.tree = host.tree))
      (removeOnce (directory.join name)) host := by
  have here : MayRemove folder name host.tree host.tree := .inl rfl
  apply Program.Meets.remove serves here hname
  · intro e after later same _
    have here : MayRemove folder name host.tree after.tree := .inl same
    dsimp only
    split
    · exact Program.Meets.done here ⟨here, fun _ => same⟩
    · exact Program.Meets.done here ⟨here, fun _ => same⟩
  · intro after node later _ _ sets
    have here : MayRemove folder name host.tree after.tree := .inr sets
    exact Program.Meets.done here ⟨here, by simp⟩

theorem meets_runFrom (policy : RetryPolicy) (serves : host.Serves folder directory)
    (hname : name.IsProper) (more : Nat) (number : UInt32) :
    Program.Meets (MayRemove folder name host.tree)
      (fun _ after => MayRemove folder name host.tree after.tree)
      (RetryPolicy.runFrom (fun _ _ => beforeNextAttempt policy.pauseMs)
        (fun _ => removeOnce (directory.join name)) more number) host := by
  induction more generalizing host number with
  | zero =>
    apply (meets_removeOnce serves hname).bind
    rintro result after later here ⟨may, -⟩
    cases result with
    | ok done => exact Program.Meets.done may may
    | error e => exact Program.Meets.done may may
  | succ more ih =>
    apply (meets_removeOnce serves hname).bind
    rintro result after later here ⟨may, failed⟩
    cases result with
    | ok done => exact Program.Meets.done may may
    | error e =>
      have same := failed ⟨e, rfl⟩
      have waits : (beforeNextAttempt policy.pauseMs).ReadsOnly := by
        unfold beforeNextAttempt
        split <;> exact ⟨rfl, fun _ => by first | trivial | exact ⟨rfl, fun _ => trivial⟩⟩
      have waited := waits.meets after
      rw [same] at waited
      refine (waited.mono (fun tree unchanged => .inl unchanged) fun _ _ _ h => h).bind ?_
      intro _ before laterBefore here sameBefore
      have again := ih (serves.unchanged (later.trans laterBefore) sameBefore) (number + 1)
      rwa [sameBefore] at again

/-- However often it is tried, removing a file leaves all else as it is. -/
theorem meets_discard (queue : Queue) (serves : host.Serves folder directory)
    (hname : name.IsProper) :
    Program.Meets (MayRemove folder name host.tree)
      (fun _ after => MayRemove folder name host.tree after.tree)
      (queue.discard (directory.join name)) host := by
  have removal : Program.Meets (MayRemove folder name host.tree)
      (fun _ after => MayRemove folder name host.tree after.tree)
      (queue.removeConsumed (directory.join name)) host := by
    apply (meets_runFrom queue.deleteRetry serves hname _ _).bind
    intro result after later here may
    cases result with
    | ok done => exact Program.Meets.done may may
    | error exhausted => exact Program.Meets.done may may
  apply removal.bind
  intro result after later here may
  cases result with
  | ok done => exact Program.Meets.done may may
  | error e =>
    show Program.Meets _ _ (Program.log _ _ >>= pure) after
    apply Program.Meets.log may
    intro told laterTold same
    rw [← same] at may
    exact Program.Meets.done may may

theorem meets_finish (queue : Queue) {content : Bytes} {modified : Int}
    (serves : host.Serves folder directory) (hname : name.IsProper)
    (there : host.tree.lookup (folder ++ [name]) = some (.file content modified)) :
    Program.Meets (MayRemove folder name host.tree)
      (fun result after => MayRemove folder name host.tree after.tree ∧
        (result = (Stored.decoded content).map some ∨ (∃ e, result = .error e) ∧
          (host.Steady → host.Reaches folder directory → ¬ Fits directory name)))
      (queue.finish (directory.join name)) host := by
  have here : MayRemove folder name host.tree host.tree := .inl rfl
  apply (Stored.meets_readRecord serves here hname there).bind
  rintro result read later here ⟨same, found⟩
  have discarded := meets_discard queue (serves.unchanged later same) hname
  rw [same] at discarded
  apply discarded.bind
  intro _ gone laterGone here may
  apply Program.Meets.log may
  intro told laterTold sameTold
  rw [← sameTold] at may
  refine Program.Meets.done may ⟨may, ?_⟩
  rcases found with rfl | ⟨⟨e, rfl⟩, why⟩
  · exact .inl rfl
  · exact .inr ⟨⟨e, rfl⟩, why⟩

/-! ### Taking a record -/

/-- What an attempt to take a record leaves behind where it is cut off. -/
def TakeCut (folder : Key) (before tree : FileTree) : Prop :=
  tree = before ∨ ∃ base content, Path.slash ∉ base ∧ Took folder base content before tree

theorem TakeCut.follows {before tree : FileTree} (h : TakeCut folder before tree)
    (here : before.lookup folder = some .directory) : Follows folder before tree := by
  rcases h with rfl | ⟨base, content, slash, took⟩
  · exact Follows.refl _ _
  · exact took.follows here slash

/-- A path that leads to the folder leads there still when a record has lost its name to a
temporary one. -/
def KeptInReach (host : Host) (folder : Key) (directory : Path) (base : Name) : Prop :=
  host.Reaches folder directory → ∀ tree, Moves folder (asCommitted base) (asTemporary base)
    host.tree tree → tree.folder? host.directory directory = some folder

/-- A link is not in the way of a path if it is not replaced. -/
theorem keptInReach_of_plain {base : Name} {content : Bytes} {modified : Int}
    (there : host.tree.lookup (folder ++ [asCommitted base]) = some (.file content modified))
    (plain : host.tree.IsPlain folder (asTemporary base)) :
    KeptInReach host folder directory base := by
  intro reaches tree moves
  refine FileTree.folder?_mono ?_ reaches
  intro key node notFile found
  rw [moves, if_neg, if_neg]
  · exact found
  · rintro rfl
    rw [there] at found
    cases found
    exact notFile rfl
  · rintro rfl
    exact notFile (plain _ found)

/-- What taking the record of a claim comes to: it is there no longer, or nothing
changes. A record that has lost its name is what is answered, unless it cannot be read. -/
inductive ConsumeOutcome (queue : Queue) (folder : Key) (base : Name) (host after : Host) :
    Except QueueError (Option Transmission) × Queue → Prop
  | failed (e : QueueError) (same : after.tree = host.tree)
      (why : host.Steady → host.Reaches folder queue.directory →
        Fits queue.directory (asCommitted base) → Fits queue.directory (asTemporary base) →
        host.tree.lookup (folder ++ [asTemporary base]) ≠ some .directory →
        host.tree.lookup (folder ++ [asCommitted base]) = none) :
      ConsumeOutcome queue folder base host after (.error e, queue)
  | took (content : Bytes) (result : Except QueueError (Option Transmission))
      (took : Took folder base content host.tree after.tree)
      (answer : result = (Stored.decoded content).map some ∨ (∃ e, result = .error e) ∧
        ¬ (host.Steady ∧ KeptInReach host folder queue.directory base))
      (fits : Fits queue.directory (asCommitted base)) :
      ConsumeOutcome queue folder base host after
        (result, { queue with
          size := Saturating.sub queue.size (UInt64.ofNat content.length) })

/-- Looking at the folder before makes no difference. -/
theorem ConsumeOutcome.of_same {base : Name} {mid after : Host}
    {outcome : Except QueueError (Option Transmission) × Queue} (later : host.Later mid)
    (same : mid.tree = host.tree) (h : ConsumeOutcome queue folder base mid after outcome) :
    ConsumeOutcome queue folder base host after outcome := by
  cases h with
  | failed e unchanged why =>
    rw [later.reaches_iff same, same] at why
    exact .failed e (unchanged.trans same) fun steady => why (later.steady steady)
  | took content result took answer fits =>
    rw [same] at took
    refine .took content result took ?_ fits
    rcases answer with read | ⟨failed, why⟩
    · exact .inl read
    · refine .inr ⟨failed, ?_⟩
      rintro ⟨steady, kept⟩
      refine why ⟨later.steady steady, ?_⟩
      intro reaches tree moves
      rw [later.reaches_iff same] at reaches
      rw [same] at moves
      rw [later.directory]
      exact kept reaches tree moves

theorem meets_consume (queue : Queue) {base : Name} (serves : host.Serves folder queue.directory)
    (slash : Path.slash ∉ base) (plain : host.tree.IsPlain folder (asCommitted base)) :
    Program.Meets (TakeCut folder host.tree)
      (fun outcome after => ConsumeOutcome queue folder base host after outcome)
      (queue.consume ⟨FileNames.committedPath queue.directory base, base⟩) host := by
  have here : TakeCut folder host.tree host.tree := .inl rfl
  have proper := FileNames.isProper_withExtension FileNames.committed_mem_extensions slash
  have proper' := FileNames.isProper_withExtension FileNames.temporary_mem_extensions slash
  apply Program.Meets.stat serves here proper plain
  · intro e after later _ same why
    refine Program.Meets.done (by rwa [same]) (.failed _ same ?_)
    exact fun steady reaches fits _ _ => why (steady _ _ (by simp)) reaches fits
  intro found content modified later same there
  have here : TakeCut folder host.tree found.tree := .inl same
  refine Program.Meets.rename (serves.unchanged later same) here proper proper'
    (FileNames.committed_ne_temporary base base) (by rwa [same]) ?_ ?_
  · intro e after laterAfter sameAfter why
    rw [later.reaches_iff same, same] at why
    refine Program.Meets.done (.inl (sameAfter.trans same)) (.failed _ (sameAfter.trans same) ?_)
    exact fun steady => why (later.steady steady)
  intro renamed content' modified' laterRenamed reaches fits fits' there' notDirectory moves
  rw [later.reaches_iff same] at reaches
  rw [same] at there' notDirectory moves
  rw [there] at there'
  cases there'
  have later := later.trans laterRenamed
  have took := FileTree.took_of_moves there notDirectory moves
  have serves := serves.follow later (took.follows serves.isFolder slash)
  have staged : renamed.tree.lookup (folder ++ [asTemporary base]) = some (.file content modified) := by
    rw [moves, if_pos rfl, there]
  have ended : ∀ {tree}, MayRemove folder (asTemporary base) renamed.tree tree →
      Took folder base content host.tree tree := by
    rintro tree (rfl | removed)
    · exact took
    · exact took.trans removed
  have finished : Program.Meets (TakeCut folder host.tree)
      (fun result after => Took folder base content host.tree after.tree ∧
        (result = (Stored.decoded content).map some ∨ (∃ e, result = .error e) ∧
          ¬ (host.Steady ∧ KeptInReach host folder queue.directory base)))
      (queue.finish (FileNames.temporaryPath queue.directory base)) renamed := by
    apply (meets_finish queue serves proper' staged).mono
    · exact fun tree may => .inr ⟨base, content, slash, ended may⟩
    · rintro result after laterAfter ⟨may, answer⟩
      refine ⟨ended may, ?_⟩
      rcases answer with read | ⟨failed, why⟩
      · exact .inl read
      · refine .inr ⟨failed, ?_⟩
        rintro ⟨steady, kept⟩
        have reached : renamed.Reaches folder queue.directory := by
          rw [Host.Reaches, later.directory]
          exact kept reaches renamed.tree moves
        exact why (later.steady steady) reached fits'
  apply finished.bind
  rintro result after laterAfter here ⟨took, answer⟩
  exact Program.Meets.done here (.took content result took answer fits)

/-- What an attempt to take the next record comes to. The candidates are those after a
batch that was empty has been made anew. -/
inductive DequeueOutcome (queue : Queue) (folder : Key) (host after : Host) :
    Except QueueError (Option Transmission) × Queue → Prop
  | unlisted (e : QueueError) (same : after.tree = host.tree) (empty : queue.candidates.batch = [])
      (why : host.Steady → FileTree.refusal? queue.directory = none →
        ¬ host.Reaches folder queue.directory) :
      DequeueOutcome queue folder host after (.error e, queue)
  | nothing (same : after.tree = host.tree)
      (unclaimed : (queue.candidates.refreshed host.tree folder queue.directory).next.1 = none) :
      DequeueOutcome queue folder host after
        (.ok none, { queue with
          candidates := (queue.candidates.refreshed host.tree folder queue.directory).next.2 })
  | claimed (base : Name) (result : Except QueueError (Option Transmission)) (taken : Queue)
      (slash : Path.slash ∉ base)
      (claim : (queue.candidates.refreshed host.tree folder queue.directory).next.1
        = some ⟨FileNames.committedPath queue.directory base, base⟩)
      (consumed : ConsumeOutcome
        { queue with
          candidates := (queue.candidates.refreshed host.tree folder queue.directory).next.2 }
        folder base host after (result, taken)) :
      DequeueOutcome queue folder host after
        (result, taken.release ⟨FileNames.committedPath queue.directory base, base⟩)

/-- Looking at the folder afterwards makes no difference. -/
theorem DequeueOutcome.unchanged {after last : Host}
    {outcome : Except QueueError (Option Transmission) × Queue} (same : last.tree = after.tree)
    (h : DequeueOutcome queue folder host after outcome) :
    DequeueOutcome queue folder host last outcome := by
  cases h with
  | unlisted e unchanged empty why => exact .unlisted e (same.trans unchanged) empty why
  | nothing unchanged unclaimed => exact .nothing (same.trans unchanged) unclaimed
  | claimed base result taken slash claim consumed =>
    refine .claimed base result taken slash claim ?_
    cases consumed with
    | failed e unchanged why => exact .failed e (same.trans unchanged) why
    | took content _ took answer fits => exact .took content result (by rwa [same]) answer fits

theorem DequeueOutcome.follows {after : Host}
    {outcome : Except QueueError (Option Transmission) × Queue}
    (here : host.tree.lookup folder = some .directory)
    (h : DequeueOutcome queue folder host after outcome) : Follows folder host.tree after.tree := by
  cases h with
  | unlisted e same => exact same ▸ Follows.refl _ _
  | nothing same => exact same ▸ Follows.refl _ _
  | claimed base result taken slash claim consumed =>
    cases consumed with
    | failed e same => exact same ▸ Follows.refl _ _
    | took content result took => exact took.follows here slash

/-- What is left of a queue has the same name and numbers, and its candidates are sound. -/
theorem DequeueOutcome.queue_eq {after : Host} {result : Except QueueError (Option Transmission)}
    {later : Queue} (serves : host.Serves folder queue.directory)
    (sound : queue.candidates.Sound folder queue.directory host.tree)
    (h : DequeueOutcome queue folder host after (result, later)) :
    later.token = queue.token ∧ later.directory = queue.directory ∧
      later.sequence = queue.sequence ∧
      later.candidates.Sound folder queue.directory after.tree := by
  have follows := h.follows serves.isFolder
  have next := (sound.refreshed serves.wellFormed).next
  cases h with
  | unlisted e same => exact ⟨rfl, rfl, rfl, sound.follow follows⟩
  | nothing same unclaimed => exact ⟨rfl, rfl, rfl, (next.2 unclaimed).follow follows⟩
  | claimed base result taken slash claim consumed =>
    obtain ⟨other, eq, -, -, -, left⟩ := next.1 _ claim
    cases (Claim.mk.inj eq).2
    cases consumed with
    | failed => exact ⟨rfl, rfl, rfl, left.follow follows⟩
    | took => exact ⟨rfl, rfl, rfl, left.follow follows⟩

theorem meets_tryDequeue (serves : host.Serves folder queue.directory)
    (sound : queue.candidates.Sound folder queue.directory host.tree) :
    Program.Meets (TakeCut folder host.tree)
      (fun outcome after => DequeueOutcome queue folder host after outcome)
      queue.tryDequeue host := by
  have here : TakeCut folder host.tree host.tree := .inl rfl
  apply (Candidates.meets_take queue.candidates serves here).bind
  rintro outcome taken later here ⟨same, ⟨e, rfl, empty, why⟩ | rfl⟩
  · exact Program.Meets.done here (.unlisted _ same empty why)
  have next := (sound.refreshed serves.wellFormed).next
  cases claim : (queue.candidates.refreshed host.tree folder queue.directory).next.1 with
  | none => exact Program.Meets.done here (.nothing same claim)
  | some found =>
    obtain ⟨base, rfl, -, slash, plain, -⟩ := next.1 found claim
    have consumed := meets_consume { queue with
        candidates := (queue.candidates.refreshed host.tree folder queue.directory).next.2 }
      (serves.unchanged later same) slash (by rwa [same])
    rw [same] at consumed
    apply consumed.bind
    intro ⟨result, left⟩ after laterAfter here ended
    exact Program.Meets.done here
      (.claimed base result left slash claim (ended.of_same later same))

end Queue
end DiskQueue
