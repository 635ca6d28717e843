/-
Module: DiskQueue.Proofs.Emptiness
Purpose: When an attempt to take a record says that there is none.
Trusted boundary: none
Main exports:
  Candidates.next_eq_none, Queue.next_eq_none_of_nothing, Queue.nothing_or_unnamed,
  Queue.run_tryDequeue_of_unnamed, Queue.withheld_forever
-/
import DiskQueue.Proofs.AllOrNothing

namespace DiskQueue

open FileNames (asCommitted asTemporary)

/-!
Whoever takes records stops when there is none. While nothing is claimed, that is what an
attempt says in two cases: no file has the name of a record, or the next name of the batch
is no text. In the second case the records behind that name are still there. A larger batch
has them for the next attempts; a batch of one name is made anew with the same name, and
they are never given.
-/

/-- A record has no base name exactly if the name before its extension is no text. -/
theorem FileNames.baseName?_committedPath_eq_none_iff (directory : Path) {base : Name}
    (nonempty : base ≠ []) (slash : Path.slash ∉ base) :
    FileNames.baseName? (FileNames.committedPath directory base) = none
      ↔ Utf8.isText base = false := by
  rw [FileNames.committedPath,
    FileNames.baseName?_join_eq directory nonempty slash FileNames.committed_mem_extensions]
  cases Utf8.isText base <;> simp

namespace Candidates

variable {folder : Key} {directory : Path} {tree : FileTree} {candidates : Candidates}

/-- While nothing is claimed, there is no claim if there is no name, or if the next one is no
text. -/
theorem next_eq_none (unclaimed : candidates.claimed = []) (none : candidates.next.1 = none) :
    candidates.batch = [] ∨
      ∃ path, candidates.batch.head? = some path ∧ FileNames.baseName? path = .none := by
  have tried := candidates.tried_next
  generalize candidates.next = outcome at tried none
  cases tried with
  | nothing empty => exact .inl empty
  | dropped path rest batch why =>
    refine .inr ⟨path, by rw [batch, List.head?_cons], Option.eq_none_iff_forall_ne_some.mpr ?_⟩
    intro base name
    have claimed := why base name
    simp [isClaimed, unclaimed] at claimed
  | claimed path rest base batch name free => cases none

/-- A batch that is empty although it has been made anew has found no file. -/
theorem listed_eq_nil (positive : 0 < candidates.limit)
    (empty : (candidates.refreshed tree folder directory).batch = []) :
    Stored.listed tree folder FileNames.committed = [] := by
  unfold refreshed at empty
  split at empty
  · have length := length_batchOf candidates.limit candidates.order
      ((Stored.listed tree folder FileNames.committed).map directory.join)
    rw [show batchOf _ _ _ = [] from empty, List.length_nil, List.length_map] at length
    exact List.length_eq_zero_iff.mp (by omega)
  · rename_i kept
    exact absurd empty kept

end Candidates

namespace Queue

variable {queue left : Queue} {folder : Key} {host after : Host} {base : Name}

/-- Nothing is said to be there only if nothing is claimed. -/
theorem next_eq_none_of_nothing (serves : host.Serves folder queue.directory)
    (ran : queue.tryDequeue.run host = ((.ok none, left), after)) :
    after.tree = host.tree ∧
      (queue.candidates.refreshed host.tree folder queue.directory).next.1 = none := by
  have looked : Program.Meets (fun _ => True) _ _ host :=
    Candidates.meets_take queue.candidates serves trivial
  obtain ⟨same, outcome⟩ := looked.run
  unfold tryDequeue at ran
  rw [Program.run_andThen] at ran
  generalize (queue.candidates.take queue.directory).run host = taking at same outcome ran
  obtain ⟨taken, later⟩ := taking
  rcases outcome with ⟨e, rfl, -⟩ | rfl
  · cases ran
  cases claim : (queue.candidates.refreshed host.tree folder queue.directory).next.1 with
  | none =>
    rw [claim] at ran
    cases ran
    exact ⟨same, rfl⟩
  | some found =>
    rw [claim] at ran
    dsimp only at ran
    rw [Program.run_andThen] at ran
    have answer := congrArg (fun ended => ended.1.1) ran
    obtain ⟨size, -, ⟨e, failed⟩ | ⟨read, given⟩⟩ := run_consume { queue with
      candidates := (queue.candidates.refreshed host.tree folder queue.directory).next.2 }
        found later
    · cases failed.symm.trans answer
    · have nothing : Except.map some read = .ok none := given.symm.trans answer
      cases read <;> cases nothing

/-- While nothing is claimed, an attempt says that there is nothing only if no file has the name
of a record, or if the next name of the batch is no text. -/
theorem nothing_or_unnamed (serves : host.Serves folder queue.directory)
    (near : queue.candidates.Near queue.directory) (positive : 0 < queue.candidates.limit)
    (unclaimed : queue.candidates.claimed = [])
    (ran : queue.tryDequeue.run host = ((.ok none, left), after)) :
    after.tree = host.tree ∧
      ((∀ name content modified, FileNames.hasExtension name FileNames.committed = true →
          after.tree.lookup (folder ++ [name]) ≠ some (.file content modified)) ∨
        ∃ base, Utf8.isText base = false ∧
          (queue.candidates.refreshed host.tree folder queue.directory).batch.head?
            = some (FileNames.committedPath queue.directory base)) := by
  obtain ⟨same, none⟩ := next_eq_none_of_nothing serves ran
  refine ⟨same, ?_⟩
  have near : (queue.candidates.refreshed host.tree folder queue.directory).Near queue.directory :=
    near.refreshed serves.wellFormed
  have nobody : (queue.candidates.refreshed host.tree folder queue.directory).claimed = [] := by
    unfold Candidates.refreshed
    split <;> exact unclaimed
  rcases Candidates.next_eq_none nobody none with empty | ⟨path, first, unnamed⟩
  · left
    intro name content modified has there
    have listed := Candidates.listed_eq_nil positive empty
    rw [same] at there
    have mem := Stored.mem_listed.mpr ⟨has, content, modified, there⟩
    rw [listed] at mem
    cases mem
  · right
    obtain ⟨base, nonempty, slash, rfl⟩ := near path (List.mem_of_mem_head? first)
    exact ⟨base, (FileNames.baseName?_committedPath_eq_none_iff _ nonempty slash).mp unnamed,
      first⟩

/-- A directory with the name of a record is none: the folder holds no record, and a queue is
told so. -/
theorem nothing_or_unnamed_of_directory :
    let tree := FileTree.empty.insert ([] ++ [asCommitted [0x61]]) .directory
    let host := Host.quiet tree [] 1700000000123 (.start 0)
    let queue : Queue := .ofDefaults [Path.slash] ⟨"abcdefgh"⟩ 0
    ∃ left after, queue.tryDequeue.run host = ((.ok none, left), after) ∧
      ∀ name content modified, FileNames.hasExtension name FileNames.committed = true →
        after.tree.lookup ([] ++ [name]) ≠ some (.file content modified) := by
  intro tree host queue
  have wf : tree.WellFormed :=
    (Host.offers_quiet 0 (.start 0)).wellFormed.insert
      (FileNames.isProper_withExtension FileNames.committed_mem_extensions (by decide))
      rfl (by decide +kernel) _
  have offers : host.Offers [] := ⟨wf, by decide +kernel, by decide +kernel⟩
  have serves : host.Serves [] queue.directory := offers.serves (by decide +kernel)
  have near : queue.candidates.Near queue.directory := by
    intro path mem
    cases mem
  have ran : queue.tryDequeue.run host
      = ((.ok none, queue), (queue.tryDequeue.run host).2) := Program.run_eq (by decide +kernel)
  have batch : (queue.candidates.refreshed host.tree [] queue.directory).batch = [] := by
    decide +kernel
  obtain ⟨-, nothing | ⟨base, -, first⟩⟩ :=
    nothing_or_unnamed serves near (by decide) rfl ran
  · exact ⟨_, _, ran, nothing⟩
  · rw [batch] at first
    cases first

/-! ### Records behind a name that is no text -/

/-- Where the directory can be listed and the next name of the batch is no text, an attempt says
that there is nothing and passes over the name. -/
theorem run_tryDequeue_of_unnamed (serves : host.Serves folder queue.directory)
    (reaches : host.Reaches folder queue.directory)
    (accepted : FileTree.refusal? queue.directory = none) (steady : host.Steady)
    {path : Path} {rest : List Path}
    (batch : (queue.candidates.refreshed host.tree folder queue.directory).batch = path :: rest)
    (unnamed : FileNames.baseName? path = none) :
    ∃ after, queue.tryDequeue.run host
      = ((.ok none, { queue with candidates :=
          { queue.candidates.refreshed host.tree folder queue.directory with batch := rest } }),
        after) ∧ after.tree = host.tree := by
  have looked : Program.Meets (fun _ => True) _ _ host :=
    Candidates.meets_take queue.candidates serves trivial
  obtain ⟨same, outcome⟩ := looked.run
  have next : (queue.candidates.refreshed host.tree folder queue.directory).next
      = (none, { queue.candidates.refreshed host.tree folder queue.directory with
          batch := rest }) := by
    unfold Candidates.next
    simp only [batch, unnamed]
  unfold tryDequeue
  rw [Program.run_andThen]
  generalize (queue.candidates.take queue.directory).run host = taking at same outcome ⊢
  obtain ⟨taken, later⟩ := taking
  rcases outcome with ⟨e, rfl, -, why⟩ | rfl
  · exact absurd reaches (why steady accepted)
  rw [next]
  exact ⟨later, rfl, same⟩

/-- The name before the record is no text. An attempt to take a record says that there is nothing,
though the record is there and can be read. -/
theorem nothing_before_record :
    let odd : Name := [0x30, 0xff]
    let tree := (recordAlone [0x61]).insert ([] ++ [asCommitted odd]) (.file [] 0)
    let start := Host.quiet tree [] 1700000000123 (.start 0)
    let queue := ofDefaults [Path.slash] ⟨"abcdefgh"⟩ 37
    ∃ ready left after,
      (openWith .default [Path.slash] ⟨"abcdefgh"⟩).run start = (.ok queue, ready) ∧
      queue.candidates.claimed = [] ∧ queue.tryDequeue.run ready = ((.ok none, left), after) ∧
      after.tree.lookup [asCommitted [0x61]] = some (.file smallRecord 0) ∧
      FileNames.hasExtension (asCommitted [0x61]) FileNames.committed = true ∧
      Stored.decoded smallRecord = .ok (.ofBytes [0x41]) := by
  intro odd tree start queue
  let ready := ((openWith .default [Path.slash] ⟨"abcdefgh"⟩).run start).2
  have opened : (openWith .default [Path.slash] ⟨"abcdefgh"⟩).run start = (.ok queue, ready) :=
    Program.run_eq (by decide +kernel)
  have wf : tree.WellFormed :=
    (wellFormed_recordAlone (by decide)).insert
      (FileNames.isProper_withExtension FileNames.committed_mem_extensions (by decide))
      rfl (by decide +kernel) _
  have offers : start.Offers [] := ⟨wf, by decide +kernel, by decide +kernel⟩
  have reaches : start.Reaches [] (Options.default.directory.getD [Path.slash]) := by
    decide +kernel
  have free : start.tree.lookup ([] ++ [checkName ⟨"abcdefgh"⟩]) = none := by decide +kernel
  have plain : start.tree.IsPlain [] (checkName ⟨"abcdefgh"⟩) := FileTree.isPlain_of_free free
  have checked : Checked [] ⟨"abcdefgh"⟩ start.tree ready.tree :=
    (meets_openWith (offers.serves reaches) reaches (by decide) plain).cut (Program.cutAt_run _ _)
  have later : start.Later ready := Program.later_run _ start
  have offers : ready.Offers [] := offers.follow later (checked.follows (by decide) plain rfl)
  have reaches : ready.Reaches [] queue.directory := by decide +kernel
  have listed : Stored.listed ready.tree [] FileNames.committed
      = [asCommitted odd, asCommitted [0x61]] := by decide +kernel
  have there : ready.tree.lookup [asCommitted [0x61]] = some (.file smallRecord 0) := by
    decide +kernel
  have retained : Candidates.retained (max Options.default.cacheSize.toNat 1)
      Options.default.refillOrder [asCommitted odd, asCommitted [0x61]]
        = [asCommitted odd, asCommitted [0x61]] := by decide +kernel
  have batch : queue.candidates.refreshed ready.tree [] queue.directory
      = .holding Options.default.cacheSize Options.default.refillOrder queue.directory
        [asCommitted odd, asCommitted [0x61]] := by
    rw [← retained]
    exact Candidates.refreshed_holding_nil offers.wellFormed (.of_eq listed.symm)
      (by decide +kernel)
  obtain ⟨after, ran, same⟩ := run_tryDequeue_of_unnamed (offers.serves reaches) reaches
    (by decide +kernel) (later.steady (fun _ _ _ => rfl)) (congrArg Candidates.batch batch)
    (by decide +kernel)
  exact ⟨ready, _, after, opened, rfl, ran, by rw [same]; exact there, by decide +kernel,
    by decide +kernel⟩

/-- A queue with batches of one name meets the same name again and again: if it is no text, every
attempt says that there is nothing, and the records behind it stay where they are. -/
theorem withheld_forever (serves : host.Serves folder queue.directory)
    (reaches : host.Reaches folder queue.directory)
    (accepted : FileTree.refusal? queue.directory = none) (steady : host.Steady)
    (single : queue.candidates = .start 1 .lowestNames) (nonempty : base ≠ [])
    (slash : Path.slash ∉ base) (unnamed : Utf8.isText base = false)
    (least : (Candidates.sorted ((Stored.listed host.tree folder FileNames.committed).map
      queue.directory.join)).head? = some (FileNames.committedPath queue.directory base))
    (count : Nat) :
    (queue.drain count host).1 = List.replicate count (.ok none) ∧
      (queue.drain count host).2.1 = queue ∧ (queue.drain count host).2.2.tree = host.tree := by
  induction count generalizing host with
  | zero => exact ⟨rfl, rfl, rfl⟩
  | succ count ih =>
    have refreshed : queue.candidates.refreshed host.tree folder queue.directory
        = { Candidates.start 1 .lowestNames with
            batch := [FileNames.committedPath queue.directory base] } := by
      obtain ⟨others, eq⟩ := List.head?_eq_some_iff.mp least
      rw [single, Candidates.refreshed,
        if_pos (show (Candidates.start 1 .lowestNames).batch = [] from rfl)]
      simp only [Candidates.start, Candidates.batchOf, eq]
      rfl
    have nobody := (FileNames.baseName?_committedPath_eq_none_iff queue.directory nonempty slash).mpr
      unnamed
    obtain ⟨after, ran, same⟩ := run_tryDequeue_of_unnamed serves reaches accepted steady
      (by rw [refreshed]) nobody
    have left : { queue with candidates :=
        { queue.candidates.refreshed host.tree folder queue.directory with batch := [] } }
          = queue := by
      rw [refreshed]
      exact congrArg (fun candidates => { queue with candidates := candidates }) single.symm
    rw [left] at ran
    have later : host.Later after := by
      have later := Program.later_run queue.tryDequeue host
      rwa [ran] at later
    have rest := ih (serves.unchanged later same) ((later.reaches_iff same).mpr reaches)
      (later.steady steady) (by rwa [same])
    rw [drain, ran]
    exact ⟨congrArg (.ok none :: ·) rest.1, rest.2.1, rest.2.2.trans same⟩

end Queue
end DiskQueue
