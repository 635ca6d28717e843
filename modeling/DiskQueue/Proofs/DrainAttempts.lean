/-
Module: DiskQueue.Proofs.DrainAttempts
Purpose: How often draining goes for a record, and how many turns it takes.
Trusted boundary: none
Main exports:
  Command.Trace.there, Command.Trace.repeated, Command.Trace.length_le,
  Command.Trace.counted_le, Command.attempts_bounded
-/
import DiskQueue.Proofs.Turns
import Mathlib.Data.List.Perm.Subperm

namespace DiskQueue

open FileTree (Fits)
open FileNames (asCommitted asTemporary)

/-!
Draining does not remember what it has gone for. It meets a record again if the record is still
there when the folder is listed anew, so only a turn that has failed and left its record can be
repeated. If nothing disturbs the turns, that happens for two reasons, and both last: a directory
has the temporary name of the record, or the system does not take its path. The records for which
neither is the case bound the number of turns.
-/

namespace Command

variable {output : Option Path} {folder target : Key} {directory : Path} {undisturbed : Prop}
  {attempt : Nat} {before mid after last : FileTree} {sought : Option Name}
  {answer : Except QueueError (Option Transmission)} {run : List Turn}

/-! ### Records that are met again -/

/-- No turn makes a record. -/
theorem Attempted.there_before
    (h : Attempted folder directory undisturbed before mid sought answer) {base : Name}
    {content : Bytes} {modified : Int}
    (there : mid.lookup (folder ++ [asCommitted base]) = some (.file content modified)) :
    before.lookup (folder ++ [asCommitted base]) = some (.file content modified) := by
  rcases h.record base with same | ⟨-, bytes, -, gone, -⟩
  · rwa [← same]
  · cases gone.symm.trans there

/-- No turn makes a directory under a temporary name. -/
theorem Attempted.directory_before
    (h : Attempted folder directory undisturbed before mid sought answer) {base : Name}
    (there : mid.lookup (folder ++ [asTemporary base]) = some .directory) :
    before.lookup (folder ++ [asTemporary base]) = some .directory := by
  cases h with
  | unlisted e same => rwa [← same]
  | nothing same => rwa [← same]
  | failed own e same => rwa [← same]
  | took own bytes _ named took =>
    by_cases same : base = own
    · subst same
      obtain ⟨node?, file, lookup⟩ := took.left
      rw [lookup, if_pos rfl] at there
      cases file _ there
    · have temporary : asTemporary base ≠ asTemporary own :=
        fun eq => same (FileNames.withExtension_injective eq)
      rwa [← took.lookup_other (FileNames.committed_ne_temporary _ _).symm temporary]

/-- Every record that is gone for is there from the start. -/
theorem Trace.there (h : Trace folder directory undisturbed output target attempt before run last)
    {turn : Turn} (mem : turn ∈ run) {base : Name} (sought : turn.sought = some base) :
    (base ≠ [] ∧ Path.slash ∉ base) ∧ ∃ content modified,
      before.lookup (folder ++ [asCommitted base]) = some (.file content modified) := by
  induction h with
  | done attempt tree => cases mem
  | @turn attempt before mid after last first rest attempted delivered ends _ ih =>
    rcases List.mem_cons.mp mem with rfl | mem
    · rw [sought] at attempted
      generalize turn.answer = answer at attempted
      cases attempted with
      | failed _ e same named there => exact ⟨named, there⟩
      | took _ content _ named took => exact ⟨named, content, took.there⟩
    · obtain ⟨named, content, modified, there⟩ := ih mem
      rw [delivered.lookup_extension base FileNames.committed_mem_extensions] at there
      exact ⟨named, content, modified, attempted.there_before there⟩

/-- A turn is repeated only if it has failed and left its record. Unless something disturbs the
turns, there is a lasting reason. -/
theorem Trace.repeated
    (h : Trace folder directory undisturbed output target attempt before run last) :
    run.Pairwise fun earlier later => ∀ base, earlier.sought = some base →
      later.sought = some base → (∃ e, earlier.answer = .error e) ∧
        (undisturbed → Fits directory (asCommitted base) →
          before.lookup (folder ++ [asTemporary base]) = some .directory) := by
  induction h with
  | done attempt tree => exact List.Pairwise.nil
  | @turn attempt before mid after last first rest attempted delivered ends others ih =>
    rw [List.pairwise_cons]
    constructor
    · intro later mem base sought again
      obtain ⟨-, content, modified, there⟩ := others.there mem again
      rw [delivered.lookup_extension base FileNames.committed_mem_extensions] at there
      rw [sought] at attempted
      generalize first.answer = answer at attempted ⊢
      cases attempted with
      | failed _ e same named _ why => exact ⟨⟨e, rfl⟩, why⟩
      | took _ bytes _ named took => cases took.lookup_committed.symm.trans there
    · refine ih.imp ?_
      intro earlier later repeats base sought again
      obtain ⟨failed, why⟩ := repeats base sought again
      refine ⟨failed, fun all fits => ?_⟩
      have there := why all fits
      rw [delivered.lookup_extension base FileNames.temporary_mem_extensions] at there
      exact attempted.directory_before there

/-- A record that can be taken is gone for once at most. -/
theorem Trace.count_le_one
    (h : Trace folder directory undisturbed output target attempt before run last)
    (all : undisturbed) {base : Name} (fits : Fits directory (asCommitted base))
    (free : before.lookup (folder ++ [asTemporary base]) ≠ some .directory) :
    (run.filterMap Turn.sought).count base ≤ 1 := by
  have apart : (run.filterMap Turn.sought).Pairwise fun a b => ¬ (a = base ∧ b = base) := by
    rw [List.pairwise_filterMap]
    refine h.repeated.imp ?_
    rintro earlier later repeats _ sought _ again ⟨rfl, rfl⟩
    exact free ((repeats _ sought again).2 all fits)
  generalize run.filterMap Turn.sought = bases at apart
  induction bases with
  | nil => exact Nat.zero_le _
  | cons first rest ih =>
    obtain ⟨others, apart⟩ := List.pairwise_cons.mp apart
    by_cases own : first = base
    · subst own
      have none : rest.count first = 0 := List.count_eq_zero.mpr fun mem => others _ mem ⟨rfl, rfl⟩
      rw [List.count_cons_self, none]
    · rw [List.count_cons_of_ne own]
      exact ih apart

/-! ### The number of turns -/

/-- If nothing disturbs the turns, each but the last one goes for a record. -/
theorem Trace.length_le
    (h : Trace folder directory undisturbed output target attempt before run last)
    (all : undisturbed) : run.length ≤ (run.filterMap Turn.sought).length + 1 := by
  induction h with
  | done attempt tree => exact Nat.zero_le _
  | @turn attempt before mid after last first rest attempted delivered ends others ih =>
    rw [List.length_cons, List.filterMap_cons]
    cases sought : first.sought with
    | some base => exact Nat.succ_le_succ ih
    | none =>
      rw [sought] at attempted
      generalize first.answer = answer at attempted ends
      cases attempted with
      | unlisted e same why => exact absurd all why
      | nothing same => rw [ends rfl]; exact Nat.le_refl _

/-- Without an output directory a turn is listed or counts as a failure, and not both, and if
nothing disturbs it, it has gone for a record. -/
theorem Trace.counted_le
    (h : Trace folder directory undisturbed none target attempt before run last)
    (all : undisturbed) :
    (entries none attempt run).length + failures run ≤ (run.filterMap Turn.sought).length := by
  induction h with
  | done attempt tree => exact Nat.le_refl _
  | @turn attempt before mid after last first rest attempted delivered ends others ih =>
    obtain ⟨sought, answer, written⟩ := first
    rw [entries_cons, failures_cons, List.filterMap_cons, List.length_append]
    have unwritten : written = none := delivered.unasked
    subst unwritten
    cases attempted with
    | unlisted e same why => exact absurd all why
    | nothing same =>
      simp only [Turn.listed?, listed?, Turn.failed, Option.toList, List.length_nil,
        Bool.toNat_false]
      omega
    | failed base e same =>
      simp only [Turn.listed?, listed?, Turn.failed, Option.toList, List.length_nil,
        List.length_cons, Bool.toNat_true]
      omega
    | took base content _ named took answered =>
      have one : (Turn.listed? none attempt ⟨some base, answer, none⟩).toList.length
          + (Turn.failed ⟨some base, answer, none⟩).toNat ≤ 1 := by
        cases answer with
        | error e => exact Nat.le_refl _
        | ok found => cases found <;> simp [Turn.listed?, listed?, Turn.failed]
      rw [List.length_cons]
      omega

/-! ### Draining with a new queue -/

section Opened

variable {options : Queue.Options} {fallback : Path} {token : ProcessToken}
  {start ready made : Host} {queue : Queue}

/-- If nothing disturbs the turns and every record can be taken, the records that they go for are
distinct. -/
theorem Trace.length_sought_le {tree : FileTree}
    (h : Trace folder directory undisturbed output target attempt before run last)
    (all : undisturbed)
    (listed : ∀ name, name ∈ Stored.listed before folder FileNames.committed →
      name ∈ Stored.listed tree folder FileNames.committed)
    (takeable : ∀ base, asCommitted base ∈ Stored.listed tree folder FileNames.committed →
      Fits directory (asCommitted base) ∧
        before.lookup (folder ++ [asTemporary base]) ≠ some .directory) :
    (run.filterMap Turn.sought).length
      ≤ (Stored.listed tree folder FileNames.committed).length := by
  have among : ∀ base ∈ run.filterMap Turn.sought,
      asCommitted base ∈ Stored.listed tree folder FileNames.committed := by
    intro base mem
    obtain ⟨turn, mem, sought⟩ := List.mem_filterMap.mp mem
    obtain ⟨⟨nonempty, slash⟩, there⟩ := h.there mem sought
    have has := FileNames.hasExtension_withExtension nonempty slash
      FileNames.committed_mem_extensions
    exact listed _ (Stored.mem_listed.mpr ⟨has, there⟩)
  have distinct : (run.filterMap Turn.sought).Nodup := by
    rw [List.nodup_iff_count_le_one]
    intro base
    by_cases mem : base ∈ run.filterMap Turn.sought
    · obtain ⟨fits, free⟩ := takeable base (among base mem)
      exact h.count_le_one all fits free
    · rw [List.count_eq_zero.mpr mem]
      exact Nat.zero_le 1
  have names : ((run.filterMap Turn.sought).map asCommitted).Nodup :=
    distinct.map fun _ _ => FileNames.withExtension_injective
  have subset : (run.filterMap Turn.sought).map asCommitted
      ⊆ Stored.listed tree folder FileNames.committed := by
    intro name mem
    obtain ⟨base, sought, rfl⟩ := List.mem_map.mp mem
    exact among base sought
  have bound := (List.subperm_of_subset names subset).length_le
  rwa [List.length_map] at bound

/-- Draining takes at most as many turns as are allowed, and goes for a record again only after a
turn that has failed and left it there. If no operation fails but for the tree, except when a file
is removed or a payload written, a record whose path the system takes and whose temporary name
belongs to no directory is gone for once at most. If all records are of that kind, there is at most
one turn more than there are records, and without an output directory the two counts of the report
come to no more than the records. -/
theorem attempts_bounded
    (opened : (Queue.openWith options fallback token).run start = (.ok queue, ready))
    (offers : ready.Offers folder) (reaches : ready.Reaches folder queue.directory)
    (prepared : Prepared output ready made)
    (receives : ∀ path, output = some path → made.Receives target path) (limit : Nat) :
    let run := (turns output 0 limit queue made).1
    let records := Stored.listed ready.tree folder FileNames.committed
    let free := fun base => Fits queue.directory (asCommitted base) ∧
      made.tree.lookup (folder ++ [asTemporary base]) ≠ some .directory
    (∃ time tracked, ((runDrain queue output limit).run ready).1
      = drainReport time (entries output 0 run) (failures run) tracked) ∧
    run.length ≤ limit ∧
    (run.Pairwise fun earlier later => ∀ base, earlier.sought = some base →
      later.sought = some base → ∃ e, earlier.answer = .error e) ∧
    (ready.TakesCalmly → ready.ReachesAside folder queue.directory →
      (∀ base, free base → (run.filterMap Turn.sought).count base ≤ 1) ∧
      ((∀ base, asCommitted base ∈ records → free base) → run.length ≤ records.length + 1 ∧
        (output = none → (entries output 0 run).length + failures run ≤ records.length))) := by
  intro run records free
  have trace := (scene_of_opened opened offers reaches prepared receives).trace 0 limit
  have listed : ∀ name, name ∈ Stored.listed made.tree folder FileNames.committed →
      name ∈ records := fun name => (prepared.grows offers).mem_listed_iff.mp
  refine ⟨?_, length_turns _ _ _ _ _, ?_, ?_⟩
  · obtain ⟨time, ran⟩ := run_drainAll queue output limit made
    exact ⟨time, _, congrArg Prod.fst ((run_runDrain prepared queue limit).trans ran)⟩
  · refine trace.repeated.imp ?_
    exact fun repeats base sought again => (repeats base sought again).1
  · intro calm aside
    have all := undisturbed_of_opened opened offers prepared calm aside
    refine ⟨fun base able => trace.count_le_one all able.1 able.2, ?_⟩
    intro takeable
    have sought := trace.length_sought_le all listed takeable
    refine ⟨(trace.length_le all).trans (Nat.succ_le_succ sought), ?_⟩
    rintro rfl
    exact (trace.counted_le all).trans sought

/-- Of three records the one in the middle is empty. Three turns go for them and a
fourth one finds nothing, so neither bound can be lowered. -/
theorem attempts_bounded_of_three :
    let tree := FileTree.empty.insertAll [] [(asCommitted [0x61], .file Queue.smallRecord 0),
      (asCommitted [0x62], .file [] 0), (asCommitted [0x63], .file Queue.smallRecord 0)]
    let start := Host.quiet tree [] 1700000000123 (.start 0)
    ∃ queue ready,
      (Queue.openWith .default [Path.slash] ⟨"abcdefgh"⟩).run start = (.ok queue, ready) ∧
      (Stored.listed ready.tree [] FileNames.committed).length = 3 ∧
      let run := (turns none 0 100 queue ready).1
      (run.length ≤ 4 ∧ (entries none 0 run).length + failures run ≤ 3) ∧
        run.length = 4 ∧ (entries none 0 run).length = 2 ∧ failures run = 1 := by
  intro tree start
  let queue : Queue := .ofDefaults [Path.slash] ⟨"abcdefgh"⟩ 74
  let ready := ((Queue.openWith .default [Path.slash] ⟨"abcdefgh"⟩).run start).2
  have opened : (Queue.openWith .default [Path.slash] ⟨"abcdefgh"⟩).run start
      = (.ok queue, ready) := Program.run_eq (by decide +kernel)
  have wf : tree.WellFormed :=
    (Host.offers_quiet 0 (.start 0)).wellFormed.insertAll rfl (by decide +kernel)
      (by decide +kernel) (by decide +kernel)
  have begins : start.Offers [] := ⟨wf, rfl, rfl⟩
  have later : start.Later ready := Program.later_run _ start
  obtain ⟨offers, reaches⟩ := begins.of_opened opened (by decide +kernel) (by decide)
    (FileTree.isPlain_of_free (by decide +kernel))
  have prepared : Prepared none ready ready := rfl
  have unasked : ∀ path, none = some path → ready.Receives [] path := by simp
  have calm : start.TakesCalmly := fun _ _ _ _ _ _ => rfl
  have leads : FileTree.empty.folder? ready.directory queue.directory = some [] := by
    rw [later.directory]
    decide +kernel
  have listed : Stored.listed ready.tree [] FileNames.committed
      = [[0x63], [0x62], [0x61]].map asCommitted := by decide +kernel
  have able : ∀ base ∈ [[0x63], [0x62], [0x61]],
      Fits queue.directory (asCommitted base) ∧
        ready.tree.lookup ([] ++ [asTemporary base]) ≠ some .directory := by decide +kernel
  have free : ∀ base, asCommitted base ∈ Stored.listed ready.tree [] FileNames.committed →
      Fits queue.directory (asCommitted base) ∧
        ready.tree.lookup ([] ++ [asTemporary base]) ≠ some .directory := by
    intro base mem
    rw [listed] at mem
    obtain ⟨own, among, same⟩ := List.mem_map.mp mem
    cases FileNames.withExtension_injective same
    exact able base among
  obtain ⟨-, bounded⟩ := (attempts_bounded opened offers reaches prepared unasked 100).2.2.2
    (calm.later later) (Host.reachesAside_of_root offers.isFolder leads)
  obtain ⟨count, total⟩ := bounded free
  have three : (Stored.listed ready.tree [] FileNames.committed).length = 3 := by rw [listed]; rfl
  rw [three] at count total
  refine ⟨queue, ready, opened, three, ⟨count, total rfl⟩, ?_⟩
  -- The kernel does not sort, so the batch is given to it.
  let names := [[0x61], [0x62], [0x63]].map asCommitted
  have found : ((Stored.paths queue.directory FileNames.committed).run ready).1
      = .ok (names.reverse.map queue.directory.join) := by decide +kernel
  have perm := (names.reverse_perm).map queue.directory.join
  have refill := queue.candidates.run_refill_of_perm found perm (by decide +kernel)
  rw [turns_of_refill rfl refill (by decide)]
  decide +kernel

end Opened

/-! ### Records that use up the turns -/

/-- A new queue, and a folder with a single record that cannot be taken: the system does not take
its path, or a directory has its temporary name. -/
structure Stuck (size : UInt64) (order : RefillOrder) (folder : Key) (base : Name) (queue : Queue)
    (host : Host) : Prop where
  serves : host.Serves folder queue.directory
  steady : host.Steady
  accepted : FileTree.refusal? queue.directory = none
  aside : host.ReachesAside folder queue.directory
  candidates : queue.candidates = .holding size order queue.directory []
  listed : Stored.listed host.tree folder FileNames.committed = [asCommitted base]
  text : Utf8.isText base = true
  blocked : ¬ Fits queue.directory (asCommitted base) ∨
    host.tree.lookup (folder ++ [asTemporary base]) = some .directory

variable {size : UInt64} {order : RefillOrder} {base : Name} {queue : Queue} {host : Host}

theorem Stuck.keep (h : Stuck size order folder base queue host) {later : Queue} {after : Host}
    (since : host.Later after) (same : after.tree = host.tree)
    (directory : later.directory = queue.directory)
    (candidates : later.candidates = .holding size order queue.directory []) :
    Stuck size order folder base later after where
  serves := directory ▸ h.serves.unchanged since same
  steady := since.steady h.steady
  accepted := directory ▸ h.accepted
  aside := directory ▸ h.aside.keep since fun tree holds => same ▸ holds
  candidates := directory ▸ candidates
  listed := by rw [same, h.listed]
  text := h.text
  blocked := by rw [directory, same]; exact h.blocked

/-- The attempt fails, and all is as before. -/
theorem Stuck.fails (h : Stuck size order folder base queue host) :
    ∃ e later after, queue.tryDequeue.run host = ((.error e, later), after) ∧
      queue.sought? host = some base ∧ Stuck size order folder base later after := by
  have wf := h.serves.wellFormed
  obtain ⟨own, nonempty, slash, eq, content, modified, there⟩ :=
    Stored.exists_base wf (h.listed ▸ List.mem_singleton_self _)
  cases FileNames.withExtension_injective eq
  have orderly : queue.candidates.Orderly size order folder queue.directory host.tree :=
    ⟨[], h.candidates, List.Pairwise.nil, List.forall_mem_nil _⟩
  have sound := orderly.sound wf
  have batch : queue.candidates.refreshed host.tree folder queue.directory
      = .holding size order queue.directory [asCommitted base] := by
    rw [h.candidates, Candidates.refreshed_holding_nil wf (.of_eq h.listed.symm)
      (List.pairwise_singleton _ _), Candidates.retained_singleton (Candidates.limit_pos size)]
  have outcome := (Queue.meets_tryDequeue h.serves sound).run
  have attempted := attempted_of_steady h.serves orderly
  have since := Program.later_run queue.tryDequeue host
  generalize queue.sought? host = sought at attempted ⊢
  generalize queue.tryDequeue.run host = taken at outcome attempted since ⊢
  obtain ⟨⟨result, later⟩, after⟩ := taken
  obtain ⟨-, directory, -, -⟩ := outcome.queue_eq h.serves sound
  have alone : ∀ name ∈ [asCommitted base],
      name ∈ Stored.listed host.tree folder FileNames.committed := by
    rw [h.listed]
    exact fun _ => id
  rcases outcome.popped h.serves batch alone with ⟨-, -, why, -⟩ | ⟨left, holds, popped⟩
  · exact absurd h.aside.reaches (why h.steady h.accepted)
  generalize due : [asCommitted base] = names at popped
  cases popped with
  | nothing same => cases due
  | passed other rest broken same =>
    cases FileNames.withExtension_injective (List.cons.inj due).1
    exact absurd h.text broken
  | took other rest bytes _ took answer fits =>
    cases FileNames.withExtension_injective (List.cons.inj due).1
    rcases h.blocked with unfit | directory
    · exact absurd fits unfit
    · exact absurd directory took.notDirectory
  | failed e other rest same why =>
    cases (List.cons.inj due).2
    refine ⟨e, later, after, rfl, ?_, h.keep since same directory holds⟩
    cases attempted with
    | unlisted e unchanged why => exact absurd ⟨h.steady, h.aside, h.accepted⟩ why
    | failed found e unchanged named there why =>
      have has := FileNames.hasExtension_withExtension named.1 named.2
        FileNames.committed_mem_extensions
      have mem := Stored.mem_listed.mpr ⟨has, there⟩
      rw [h.listed, List.mem_singleton] at mem
      rw [FileNames.withExtension_injective mem]
    | took found bytes _ named took =>
      obtain ⟨modified, there⟩ := took.there
      rw [← same, took.lookup_committed] at there
      cases there

/-- The record is gone for in every turn that is allowed, and is never listed. -/
theorem Stuck.turns (h : Stuck size order folder base queue host) (output : Option Path)
    (attempt more : Nat) :
    let run := (turns output attempt more queue host).1
    run.map Turn.sought = List.replicate more (some base) ∧ failures run = more ∧
      entries output attempt run = [] := by
  induction more generalizing attempt queue host with
  | zero => exact ⟨rfl, rfl, rfl⟩
  | succ more ih =>
    obtain ⟨e, later, after, ran, sought, stuck⟩ := h.fails
    have logged : Stuck size order folder base later
        ((deliver output attempt (.error e)).run after).2 :=
      stuck.keep (Program.later_run _ _) rfl rfl stuck.candidates
    obtain ⟨same, failed, listed⟩ := ih logged (attempt + 1)
    rw [Command.turns, ran, sought]
    dsimp only
    rw [List.map_cons, same, failures_cons, failed, entries_cons, listed]
    exact ⟨rfl, Nat.add_comm 1 more, rfl⟩

theorem stuck_of_opened {start ready : Host} {fallback : Path} {tracked : UInt64}
    (leads : FileTree.empty.folder? start.directory fallback = some [])
    (accepted : FileTree.refusal? fallback = none) (steady : start.Steady)
    (opened : (Queue.openWith .default fallback ⟨"abcdefgh"⟩).run start
      = (.ok (Queue.ofDefaults fallback ⟨"abcdefgh"⟩ tracked), ready))
    (serves : ready.Serves [] fallback)
    (listed : Stored.listed ready.tree [] FileNames.committed = [asCommitted base])
    (text : Utf8.isText base = true)
    (blocked : ¬ Fits fallback (asCommitted base) ∨
      ready.tree.lookup ([] ++ [asTemporary base]) = some .directory) :
    Stuck Queue.Options.default.cacheSize Queue.Options.default.refillOrder [] base
      (Queue.ofDefaults fallback ⟨"abcdefgh"⟩ tracked) ready := by
  have later := Program.later_run (Queue.openWith .default fallback ⟨"abcdefgh"⟩) start
  rw [opened] at later
  exact {
    serves := serves
    steady := later.steady steady
    accepted := accepted
    aside := Host.reachesAside_of_root serves.isFolder (later.directory ▸ leads)
    candidates := rfl
    listed := listed
    text := text
    blocked := blocked }

/-- The path of a record may be too long for the system where that of the folder is not. -/
theorem exists_stuck_of_long :
    let long : Name := List.replicate 251 0x61
    let slashes : Path := List.replicate 3900 Path.slash
    let start := Host.quiet (Queue.recordAlone long) [] 1700000000123 (.start 0)
    start.Offers [] ∧ start.Reaches [] slashes ∧ ∃ queue ready,
      (Queue.openWith .default slashes ⟨"abcdefgh"⟩).run start = (.ok queue, ready) ∧
      (∀ extension ∈ FileNames.extensions, ∀ other,
        ready.tree.lookup ([] ++ [FileNames.withExtension other extension])
          = (Queue.recordAlone long).lookup ([] ++ [FileNames.withExtension other extension])) ∧
      Stuck Queue.Options.default.cacheSize Queue.Options.default.refillOrder [] long queue
        ready := by
  intro long slashes start
  have slash : Path.slash ∉ long := by decide +kernel
  have reaches : start.Reaches [] slashes := by decide +kernel
  have accepted : FileTree.refusal? slashes = none := by decide +kernel
  have unfit : FileTree.refusal? (slashes.join (asCommitted long)) ≠ none := by decide +kernel
  obtain ⟨tracked, ready, opened, serves, kept⟩ :=
    Queue.exists_opened_alone slash reaches accepted ⟨by decide +kernel, by decide +kernel⟩
  have listed := Queue.listed_recordAlone (by decide) slash serves.wellFormed
    (kept _ FileNames.committed_mem_extensions)
  exact ⟨⟨Queue.wellFormed_recordAlone slash, rfl, rfl⟩, reaches, _, ready, opened, kept,
    stuck_of_opened (by decide +kernel) accepted (fun _ _ _ => rfl) opened serves listed
      (by decide +kernel) (.inl fun fits => unfit fits.accepted)⟩

/-- A new queue on a folder with one record goes for that record as often as it may. -/
def Repeats (start : Host) (fallback : Path) (base : Name) : Prop :=
  start.Offers [] ∧ start.Reaches [] fallback ∧ ∃ queue ready,
    (Queue.openWith .default fallback ⟨"abcdefgh"⟩).run start = (.ok queue, ready) ∧
    Stored.listed ready.tree [] FileNames.committed = [asCommitted base] ∧
    ∀ limit, let run := (turns none 0 limit queue ready).1
      run.map Turn.sought = List.replicate limit (some base) ∧ failures run = limit

theorem repeats_of_stuck {start ready : Host} {fallback : Path} (offers : start.Offers [])
    (reaches : start.Reaches [] fallback)
    (opened : (Queue.openWith .default fallback ⟨"abcdefgh"⟩).run start = (.ok queue, ready))
    (stuck : Stuck size order [] base queue ready) : Repeats start fallback base := by
  refine ⟨offers, reaches, queue, ready, opened, stuck.listed, ?_⟩
  intro limit
  obtain ⟨same, failed, -⟩ := stuck.turns none 0 limit
  exact ⟨same, failed⟩

/-- With one record in the folder, a new queue takes more than two turns. -/
def Overruns (start : Host) (fallback : Path) (output : Option Path) : Prop :=
  start.Offers [] ∧ start.Reaches [] fallback ∧ ∃ queue ready made,
    (Queue.openWith .default fallback ⟨"abcdefgh"⟩).run start = (.ok queue, ready) ∧
    (Stored.listed ready.tree [] FileNames.committed).length = 1 ∧
    Prepared output ready made ∧ 2 < (turns output 0 3 queue made).1.length

/-- A directory may have the temporary name of the record, or its path may be too long for the
system. The path of the folder may lead through a link that gives way to the record. A link with
the name of a payload may lead to a new record. -/
theorem repeated_attempts :
    let long : Name := List.replicate 251 0x61
    let slashes : Path := List.replicate 3900 Path.slash
    let short : Name := [0x61]
    let blocked := (Queue.recordAlone short).insert ([] ++ [asTemporary short]) .directory
    let linked := (Queue.recordAlone short).insert ([] ++ [asTemporary short]) (.link [Path.dot])
    let folder := (Queue.recordAlone short).insert ([] ++ [[0x6F]]) .directory
    let leading := folder.insert ([[0x6F]] ++ [payloadName 0])
      (.link (FileNames.committedPath [Path.slash] [0x62]))
    let host := fun tree => Host.quiet tree [] 1700000000123 (.start 0)
    Repeats (host blocked) [Path.slash] short ∧
      Repeats (host (Queue.recordAlone long)) slashes long ∧
      Overruns (host linked) (Path.slash :: asTemporary short) none ∧
      Overruns (host leading) [Path.slash] (some [Path.slash, 0x6F]) := by
  intro long slashes short blocked linked folder leading host
  have alone := Queue.wellFormed_recordAlone (show Path.slash ∉ short by decide)
  have temporary := FileNames.isProper_withExtension FileNames.temporary_mem_extensions
    (show Path.slash ∉ short by decide)
  have free : (Queue.recordAlone short).lookup ([] ++ [asTemporary short]) ≠ some .directory := by
    decide +kernel
  have wfBlocked : blocked.WellFormed := alone.insert temporary rfl free _
  have wfLinked : linked.WellFormed := alone.insert temporary rfl free _
  have wfFolder : folder.WellFormed := alone.insert (by decide) rfl (by decide +kernel) _
  have wfLeading : leading.WellFormed :=
    wfFolder.insert (isProper_payloadName 0) (by decide +kernel) (by decide +kernel) _
  refine ⟨?_, ?_, ?_, ?_⟩
  · have offers : (host blocked).Offers [] := ⟨wfBlocked, rfl, rfl⟩
    have opened : (Queue.openWith .default [Path.slash] ⟨"abcdefgh"⟩).run (host blocked)
        = (.ok (Queue.ofDefaults [Path.slash] ⟨"abcdefgh"⟩ 37), _) :=
      Program.run_eq (by decide +kernel)
    have plain : blocked.IsPlain [] (Queue.checkName ⟨"abcdefgh"⟩) :=
      FileTree.isPlain_of_free (by decide +kernel)
    obtain ⟨offered, reached⟩ := offers.of_opened opened (by decide +kernel) (by decide) plain
    exact repeats_of_stuck offers (by decide +kernel) opened (stuck_of_opened (by decide +kernel)
      (by decide +kernel) (fun _ _ _ => rfl) opened (offered.serves reached) (by decide +kernel)
      (by decide +kernel) (.inr (by decide +kernel)))
  · obtain ⟨offers, reaches, queue, ready, opened, -, stuck⟩ := exists_stuck_of_long
    exact repeats_of_stuck offers reaches opened stuck
  · exact ⟨⟨wfLinked, rfl, rfl⟩, by decide +kernel,
      Queue.ofDefaults (Path.slash :: asTemporary short) ⟨"abcdefgh"⟩ 37, _, _,
      Program.run_eq (by decide +kernel), by decide +kernel, rfl, by decide +kernel⟩
  · exact ⟨⟨wfLeading, rfl, rfl⟩, by decide +kernel,
      Queue.ofDefaults [Path.slash] ⟨"abcdefgh"⟩ 37, _, _,
      Program.run_eq (by decide +kernel), by decide +kernel, Program.run_eq (by decide +kernel),
      by decide +kernel⟩

end Command
end DiskQueue
