/-
Module: DiskQueue.Proofs.Storing
Purpose: What an attempt to store a record does to the folder of a queue, at its end
  and wherever it is cut off.
Trusted boundary: none
Main exports:
  Queue.advance, Queue.base, FileTree.Begun, FileTree.Committed, Queue.StoreOutcome,
  Queue.meets_createStaging, Queue.meets_commitRecord, Queue.meets_tryStore
-/
import DiskQueue.Proofs.FileNames
import DiskQueue.Proofs.Serving
import DiskQueue.Queue

namespace DiskQueue

open FileTree (Fits Sets Moves Follows)

/-!
To store a record a queue draws numbers until it has found a free temporary name, writes
the record there and then gives the file its final name. Seen from outside there are
three states of the folder: nothing has happened, a temporary file holds a beginning of
the record, or the record is there as a whole under its final name and the temporary
file is gone.
-/

open FileNames (asCommitted asTemporary)

/-- Room for a base name with one extension is room for it with the other. -/
theorem FileNames.fits_withExtension {directory : Path} {base extension other : Name}
    (h : extension ∈ FileNames.extensions) (h' : other ∈ FileNames.extensions)
    (slash : Path.slash ∉ base) (fits : Fits directory (FileNames.withExtension base extension)) :
    Fits directory (FileNames.withExtension base other) := by
  have zero : ∀ extension ∈ FileNames.extensions,
      (0 : UInt8) ∈ FileNames.withExtension base extension ↔ (0 : UInt8) ∈ base := by
    intro extension mem
    have apart : (0 : UInt8) ≠ Path.dot := by decide
    simp [FileNames.withExtension, apart, (FileNames.notMem_extension mem).2.2]
  refine fits.congr (FileNames.isProper_withExtension h slash)
    (FileNames.isProper_withExtension h' slash) ?_ ?_
  · simp [FileNames.withExtension, FileNames.length_extension h, FileNames.length_extension h']
  · rw [zero _ h, zero _ h']

/-- Room for a temporary name is room for the final one. -/
theorem FileNames.fits_asCommitted {directory : Path} {base : Name} (slash : Path.slash ∉ base)
    (h : Fits directory (asTemporary base)) : Fits directory (asCommitted base) :=
  FileNames.fits_withExtension FileNames.temporary_mem_extensions
    FileNames.committed_mem_extensions slash h

/-- Room for a final name is room for the temporary one. -/
theorem FileNames.fits_asTemporary {directory : Path} {base : Name} (slash : Path.slash ∉ base)
    (h : Fits directory (asCommitted base)) : Fits directory (asTemporary base) :=
  FileNames.fits_withExtension FileNames.committed_mem_extensions
    FileNames.temporary_mem_extensions slash h

namespace FileTree

variable {folder : Key} {base : Name} {record : Bytes} {before after : FileTree}

/-- A temporary file that was not there holds a beginning of a record. -/
structure Begun (folder : Key) (base : Name) (record : Bytes) (before after : FileTree) : Prop where
  free : before.lookup (folder ++ [asTemporary base]) = none
  sets : ∃ content modified, content <+: record ∧
    Sets folder (asTemporary base) (some (.file content modified)) before after

/-- A record is there as a whole, and its temporary file neither was nor is. -/
structure Committed (folder : Key) (base : Name) (record : Bytes) (before after : FileTree) :
    Prop where
  free : before.lookup (folder ++ [asTemporary base]) = none
  notDirectory : before.lookup (folder ++ [asCommitted base]) ≠ some .directory
  sets : ∃ modified, Sets folder (asCommitted base) (some (.file record modified)) before after

theorem Begun.follows (h : Begun folder base record before after)
    (here : before.lookup folder = some .directory) (slash : Path.slash ∉ base) :
    Follows folder before after := by
  obtain ⟨content, modified, -, sets⟩ := h.sets
  apply sets.follows (by simp [h.free]) here
  rintro node ⟨⟩
  exact ⟨rfl, FileNames.isProper_withExtension FileNames.temporary_mem_extensions slash⟩

theorem Committed.follows (h : Committed folder base record before after)
    (here : before.lookup folder = some .directory) (slash : Path.slash ∉ base) :
    Follows folder before after := by
  obtain ⟨modified, sets⟩ := h.sets
  apply sets.follows h.notDirectory here
  rintro node ⟨⟩
  exact ⟨rfl, FileNames.isProper_withExtension FileNames.committed_mem_extensions slash⟩

end FileTree

open FileTree (Begun Committed)

namespace Queue

/-! ### Numbers and names -/

/-- The queue after it has drawn so many numbers. -/
def advance (queue : Queue) (count : Nat) : Queue :=
  { queue with sequence := queue.sequence + UInt64.ofNat count }

/-- The base name for a time and the number that is so many further on. -/
def base (queue : Queue) (millis : Int) (offset : Nat) : Name :=
  FileNames.generated millis queue.token (queue.sequence + UInt64.ofNat offset)

theorem advance_zero (queue : Queue) : queue.advance 0 = queue := by
  simp [advance]

theorem advance_advance (queue : Queue) (m n : Nat) :
    (queue.advance m).advance n = queue.advance (m + n) := by
  simp [advance, UInt64.ofNat_add, UInt64.add_assoc]

theorem base_advance (queue : Queue) (millis : Int) (m n : Nat) :
    (queue.advance m).base millis n = queue.base millis (m + n) := by
  simp [advance, base, UInt64.ofNat_add, UInt64.add_assoc]

variable {queue : Queue} {folder : Key} {host : Host} {cut : FileTree → Prop}

theorem slash_notMem_base (valid : queue.token.IsValid) (millis : Int) (offset : Nat) :
    Path.slash ∉ queue.base millis offset :=
  FileNames.slash_notMem_generated valid

theorem isProper_base (valid : queue.token.IsValid) (millis : Int) (offset : Nat)
    {extension : Name} (h : extension ∈ FileNames.extensions) :
    (FileNames.withExtension (queue.base millis offset) extension).IsProper :=
  FileNames.isProper_withExtension h (slash_notMem_base valid millis offset)

/-! ### The temporary file -/

/-- What making a temporary file comes to: numbers are drawn in vain, or the last one
drawn gave a name that was free. -/
inductive StagingOutcome (queue : Queue) (folder : Key) (host after : Host) (attempts : Nat) :
    Except IoError Path × Queue → Prop
  | failed (e : IoError) (drawn : Nat) (bound : drawn ≤ attempts) (same : after.tree = host.tree) :
      StagingOutcome queue folder host after attempts (.error e, queue.advance drawn)
  | made (number offset : Nat) (bound : offset < attempts) (since : host.calls ≤ number)
      (before : number < after.calls) (reaches : host.Reaches folder queue.directory)
      (fits : Fits queue.directory (asTemporary (queue.base (host.clock number) offset)))
      (free : host.tree.lookup
        (folder ++ [asTemporary (queue.base (host.clock number) offset)]) = none)
      (modified : Int)
      (sets : Sets folder (asTemporary (queue.base (host.clock number) offset))
        (some (.file [] modified)) host.tree after.tree) :
      StagingOutcome queue folder host after attempts
        (.ok (FileNames.temporaryPath queue.directory (queue.base (host.clock number) offset)),
          queue.advance (offset + 1))

/-- The first number was drawn in vain. -/
theorem StagingOutcome.of_advance {mid after : Host} {attempts : Nat}
    {outcome : Except IoError Path × Queue} (later : host.Later mid) (same : mid.tree = host.tree)
    (h : StagingOutcome (queue.advance 1) folder mid after attempts outcome) :
    StagingOutcome queue folder host after (attempts + 1) outcome := by
  cases h with
  | failed e drawn bound unchanged =>
    rw [advance_advance]
    exact .failed e (1 + drawn) (by omega) (unchanged.trans same)
  | made number offset bound since before reaches fits free modified sets =>
    rw [later.reaches_iff same] at reaches
    simp only [advance_advance, base_advance, later.clock, same] at fits free sets ⊢
    exact .made number (1 + offset) (by omega) (Nat.le_trans later.calls since) before reaches fits
      free modified sets

theorem meets_createStaging (attempts : Nat) (serves : host.Serves folder queue.directory)
    (valid : queue.token.IsValid) (here : cut host.tree)
    (begun : ∀ millis offset modified tree, offset < attempts →
      host.tree.lookup (folder ++ [asTemporary (queue.base millis offset)]) = none →
      Sets folder (asTemporary (queue.base millis offset)) (some (.file [] modified)) host.tree
        tree →
      cut tree) :
    Program.Meets cut (fun outcome after => StagingOutcome queue folder host after attempts outcome)
      (queue.createStaging attempts) host := by
  induction attempts generalizing queue host with
  | zero =>
    apply Program.Meets.done here
    have failed : StagingOutcome queue folder host host 0 (.error .alreadyExists, queue.advance 0) :=
      .failed _ 0 (Nat.le_refl _) rfl
    rwa [advance_zero] at failed
  | succ attempts ih =>
    refine Program.Meets.now here fun read later calls same => ?_
    have first : FileNames.staging (host.clock host.calls) queue.token queue.sequence
        = asTemporary (queue.base (host.clock host.calls) 0) := by
      simp [base, FileNames.staging]
    have proper := isProper_base valid (host.clock host.calls) 0 FileNames.temporary_mem_extensions
    rw [first]
    apply Program.Meets.createNew (serves.unchanged later same) (by rwa [same]) proper
    · intro e failed laterFailed sameFailed
      have later := later.trans laterFailed
      have same := sameFailed.trans same
      by_cases again : e = .alreadyExists ∧ attempts ≠ 0
      · simp only [if_pos again]
        apply Program.Meets.log (by rwa [same])
        intro retried laterRetried sameRetried
        have later := later.trans laterRetried
        have same := sameRetried.trans same
        have serves : retried.Serves folder (queue.advance 1).directory :=
          serves.unchanged later same
        refine (ih serves valid (by rwa [same]) ?_).mono
          (fun _ stopped => stopped) fun _ _ _ ended => ended.of_advance later same
        intro millis offset modified tree bound free sets
        rw [same, base_advance] at free
        rw [same, base_advance] at sets
        exact begun millis (1 + offset) modified tree (by omega) free sets
      · simp only [if_neg again]
        apply Program.Meets.done (by rwa [same])
        exact .failed e 1 (by omega) same
    · intro made laterMade reaches fits free sets
      rw [later.reaches_iff same] at reaches
      rw [same] at free sets
      have number : host.calls < made.calls := by
        have := laterMade.calls
        omega
      apply Program.Meets.done (begun _ 0 _ _ (Nat.succ_pos _) free sets)
      exact .made host.calls 0 (Nat.succ_pos _) (Nat.le_refl _) number reaches fits free _ sets

/-! ### The record -/

/-- What has been written of a record when writing it ends: all of it, or a beginning. -/
theorem meets_writeSynced {directory : Path} {name : Name} {record : Bytes} {modified : Int}
    (serves : host.Serves folder directory) (hname : name.IsProper)
    (there : host.tree.lookup (folder ++ [name]) = some (.file [] modified))
    (begun : ∀ content modified tree, content <+: record →
      Sets folder name (some (.file content modified)) host.tree tree → cut tree) :
    Program.Meets cut
      (fun result after => ∃ content modified, content <+: record ∧
        (result = .ok () → content = record) ∧
        Sets folder name (some (.file content modified)) host.tree after.tree)
      (writeSynced (directory.join name) record) host := by
  have unwritten : Sets folder name (some (.file [] modified)) host.tree host.tree := by
    intro key
    split
    · rename_i own
      rw [own, there]
    · rfl
  have here : cut host.tree := begun [] modified _ List.nil_prefix unwritten
  apply Program.Meets.append serves here hname there
  · intro count tree sets
    exact begun _ _ _ (List.take_prefix _ _) sets
  · intro e failed later same
    refine Program.Meets.done (by rwa [same]) ⟨[], modified, List.nil_prefix, by simp, ?_⟩
    rwa [same]
  · intro appended later sets
    rw [List.nil_append] at sets
    have looks : (Program.sync (directory.join name)).ReadsOnly := ⟨rfl, fun _ => trivial⟩
    apply (looks.meets appended).mono
    · rintro tree rfl
      exact begun _ _ _ List.prefix_rfl sets
    · intro result after _ same
      exact ⟨record, _, List.prefix_rfl, fun _ => rfl, by rwa [same]⟩

/-- A temporary file that holds a whole record becomes that record. -/
theorem committed_of_moves {base : Name} {record : Bytes} {modified : Int}
    {before mid after : FileTree}
    (free : before.lookup (folder ++ [asTemporary base]) = none)
    (sets : Sets folder (asTemporary base) (some (.file record modified)) before mid)
    (notDirectory : mid.lookup (folder ++ [asCommitted base]) ≠ some .directory)
    (moves : Moves folder (asTemporary base) (asCommitted base) mid after) :
    Committed folder base record before after := by
  have other := FileNames.committed_ne_temporary base base
  refine ⟨free, by rwa [← sets.lookup_sibling other], modified, ?_⟩
  intro key
  rw [moves]
  split
  · exact sets.lookup_self
  · split
    · rename_i own
      rw [own, free]
    · rename_i own
      exact sets.lookup_other own

/-- What an attempt to store a record comes to. Numbers may be drawn, and a temporary file
may be left; only if the attempt succeeds the record is there. -/
inductive StoreOutcome (queue : Queue) (folder : Key) (record : Bytes) (host after : Host) :
    Except QueueError Path × Queue → Prop
  | refused (e : QueueError) (drawn : Nat) (bound : drawn ≤ maxStagingAttempts)
      (same : after.tree = host.tree) :
      StoreOutcome queue folder record host after (.error e, queue.advance drawn)
  | abandoned (e : QueueError) (number offset : Nat) (bound : offset < maxStagingAttempts)
      (begun : Begun folder (queue.base (host.clock number) offset) record host.tree after.tree) :
      StoreOutcome queue folder record host after (.error e, queue.advance (offset + 1))
  | stored (number offset : Nat) (bound : offset < maxStagingAttempts)
      (since : host.calls ≤ number) (before : number < after.calls)
      (fits : Fits queue.directory (asTemporary (queue.base (host.clock number) offset)))
      (committed : Committed folder (queue.base (host.clock number) offset) record host.tree
        after.tree) :
      StoreOutcome queue folder record host after
        (.ok (FileNames.committedPath queue.directory (queue.base (host.clock number) offset)),
          { queue.advance (offset + 1) with
            size := queue.size + UInt64.ofNat record.length })

/-- Looking at the folder afterwards makes no difference. -/
theorem StoreOutcome.unchanged {record : Bytes} {after last : Host}
    {outcome : Except QueueError Path × Queue} (later : after.Later last)
    (same : last.tree = after.tree) (h : StoreOutcome queue folder record host after outcome) :
    StoreOutcome queue folder record host last outcome := by
  cases h with
  | refused e drawn bound unchanged => exact .refused e drawn bound (same.trans unchanged)
  | abandoned e number offset bound begun =>
    exact .abandoned e number offset bound (by rwa [same])
  | stored number offset bound since before fits committed =>
    exact .stored number offset bound since (Nat.lt_of_lt_of_le before later.calls) fits
      (by rwa [same])

theorem StoreOutcome.follows {record : Bytes} {after : Host}
    {outcome : Except QueueError Path × Queue} (serves : host.Serves folder queue.directory)
    (valid : queue.token.IsValid) (h : StoreOutcome queue folder record host after outcome) :
    Follows folder host.tree after.tree := by
  cases h with
  | refused e drawn bound same => exact same ▸ Follows.refl _ _
  | abandoned e number offset bound begun =>
    exact begun.follows serves.isFolder (slash_notMem_base valid _ _)
  | stored number offset bound since before fits committed =>
    exact committed.follows serves.isFolder (slash_notMem_base valid _ _)

/-- What an attempt to store a record leaves behind where it is cut off. -/
def StoreCut (queue : Queue) (folder : Key) (record : Bytes) (before tree : FileTree) : Prop :=
  tree = before ∨ ∃ millis offset, offset < maxStagingAttempts ∧
    (Begun folder (queue.base millis offset) record before tree ∨
      Fits queue.directory (asTemporary (queue.base millis offset)) ∧
        Committed folder (queue.base millis offset) record before tree)

theorem StoreCut.follows {record : Bytes} {tree : FileTree}
    (serves : host.Serves folder queue.directory) (valid : queue.token.IsValid)
    (h : StoreCut queue folder record host.tree tree) : Follows folder host.tree tree := by
  rcases h with rfl | ⟨millis, offset, -, begun | ⟨-, committed⟩⟩
  · exact Follows.refl _ _
  · exact begun.follows serves.isFolder (slash_notMem_base valid _ _)
  · exact committed.follows serves.isFolder (slash_notMem_base valid _ _)

theorem meets_commitRecord {record : Bytes} (serves : host.Serves folder queue.directory)
    (valid : queue.token.IsValid) :
    Program.Meets (StoreCut queue folder record host.tree)
      (fun outcome after => StoreOutcome queue folder record host after outcome)
      (queue.commitRecord record) host := by
  have nothing : StoreCut queue folder record host.tree host.tree := .inl rfl
  refine (meets_createStaging maxStagingAttempts serves valid nothing ?_).bind ?_
  · intro millis offset modified tree bound free sets
    exact .inr ⟨millis, offset, bound, .inl ⟨free, [], modified, List.nil_prefix, sets⟩⟩
  intro outcome staged later here made
  cases made with
  | failed e drawn bound same =>
    exact Program.Meets.done here (.refused _ drawn bound same)
  | made number offset bound since before reaches fits free modified sets =>
    have slash := slash_notMem_base valid (host.clock number) offset
    have proper := FileNames.isProper_withExtension FileNames.temporary_mem_extensions slash
    have proper' := FileNames.isProper_withExtension FileNames.committed_mem_extensions slash
    have begun : ∀ {content : Bytes} {modified : Int} {tree : FileTree}, content <+: record →
        Sets folder (asTemporary (queue.base (host.clock number) offset))
          (some (.file content modified)) host.tree tree →
        Begun folder (queue.base (host.clock number) offset) record host.tree tree :=
      fun part sets => ⟨free, _, _, part, sets⟩
    have rewritten : ∀ {content : Bytes} {modified : Int} {tree : FileTree},
        Sets folder (asTemporary (queue.base (host.clock number) offset))
          (some (.file content modified)) staged.tree tree →
        Sets folder (asTemporary (queue.base (host.clock number) offset))
          (some (.file content modified)) host.tree tree :=
      fun again => sets.trans again
    have serves := serves.follow later ((begun List.nil_prefix sets).follows serves.isFolder slash)
    refine (meets_writeSynced serves proper sets.lookup_self ?_).bind ?_
    · intro content modified tree part again
      exact .inr ⟨_, offset, bound, .inl (begun part (rewritten again))⟩
    intro result written laterWritten here ⟨content, modified', part, whole, again⟩
    have follows := again.follows (by simp [sets.lookup_self]) serves.isFolder
      (by rintro node ⟨⟩; exact ⟨rfl, proper⟩)
    have serves := serves.follow laterWritten follows
    have sets := rewritten again
    cases result with
    | error e =>
      exact Program.Meets.done here (.abandoned _ number offset bound (begun part sets))
    | ok done =>
      cases whole rfl
      have base : FileNames.baseName?
          (FileNames.temporaryPath queue.directory (queue.base (host.clock number) offset))
            = some (queue.base (host.clock number) offset) :=
        FileNames.baseName?_join_staging queue.directory valid
      unfold publish
      simp only [base]
      refine Program.Meets.rename serves here proper proper'
        (FileNames.committed_ne_temporary _ _).symm ?_ ?_ ?_
      · exact FileTree.isPlain_of_file sets.lookup_self
      · intro e failed laterFailed same _
        apply Program.Meets.done (by rwa [same])
        exact .abandoned _ number offset bound (by rw [same]; exact begun part sets)
      · intro renamed content' modified'' laterRenamed _ _ _ there notDirectory moves
        have committed := committed_of_moves free sets notDirectory moves
        have here : StoreCut queue folder record host.tree renamed.tree :=
          .inr ⟨_, offset, bound, .inr ⟨fits, committed⟩⟩
        apply Program.Meets.log here
        intro told laterTold same
        apply Program.Meets.done (by rwa [same])
        refine .stored number offset bound since ?_ fits (by rwa [same])
        have := laterWritten.calls
        have := laterRenamed.calls
        have := laterTold.calls
        omega

/-- An attempt to store what may have no record. -/
theorem meets_tryStore {record : Except IoError Bytes} (serves : host.Serves folder queue.directory)
    (valid : queue.token.IsValid) :
    Program.Meets
      (fun tree => tree = host.tree ∨
        ∃ bytes, record = .ok bytes ∧ StoreCut queue folder bytes host.tree tree)
      (fun outcome after => (∃ e, outcome = (.error e, queue) ∧ after.tree = host.tree) ∨
        ∃ bytes, record = .ok bytes ∧ StoreOutcome queue folder bytes host after outcome)
      (queue.tryStore record) host := by
  unfold tryStore
  split
  · exact Program.Meets.done (.inl rfl) (.inl ⟨_, rfl, rfl⟩)
  · cases record with
    | error e => exact Program.Meets.done (.inl rfl) (.inl ⟨_, rfl, rfl⟩)
    | ok bytes =>
      exact (meets_commitRecord serves valid).mono (fun tree stopped => .inr ⟨bytes, rfl, stopped⟩)
        fun outcome after _ ended => .inr ⟨bytes, rfl, ended⟩

end Queue
end DiskQueue
