/-
Module: DiskQueue.Proofs.Ledger
Purpose: An account of all records of a folder, kept along a history.
Trusted boundary: none
Main exports:
  Ledger, Ledger.Explains, Ledger.Books, Ledger.Continues, Ledger.Books.step,
  Ledger.exists_books
-/
import DiskQueue.Proofs.Fleet
import Mathlib.Data.List.Nodup

namespace DiskQueue

open FileTree (Fits Sets Follows Committed Took Quiet quiet_of_begun quiet_of_swept)
open FileNames (asCommitted asTemporary)

/-!
The ledger gives every payload that has become a record the base name of its file, and
every transmission that was delivered the base name of the file it came from. A record
is there until it is taken, and it is taken once. A record may be lost between losing its
name and being delivered; without faults, and while no work is cut off, that happens only
to files that were in the folder before and hold no record.
-/

/-- Records by the base names of their files: those whose storing was confirmed, those
whose storing was cut off afterwards, those that were delivered, and those that have lost
their names without being delivered. -/
structure Ledger where
  kept : List (Name × Payload)
  orphans : List (Name × Payload)
  taken : List (Name × Transmission)
  lost : List Name

namespace Ledger

/-- Nothing has been stored or taken. -/
def empty : Ledger := ⟨[], [], [], []⟩

/-- The records that have been stored. -/
def written (ledger : Ledger) : List (Name × Payload) := ledger.kept ++ ledger.orphans

/-- The names of the records that are there no longer. -/
def gone (ledger : Ledger) : List Name := ledger.taken.map Prod.fst ++ ledger.lost

variable {folder : Key} {start before after : FileTree} {ledger : Ledger} {base : Name}

/-- What the ledger says of a folder is true. -/
structure Explains (folder : Key) (start tree : FileTree) (ledger : Ledger) : Prop where
  distinct : (ledger.written.map Prod.fst).Nodup
  once : ledger.gone.Nodup
  entries : ∀ name node, tree.lookup (folder ++ [name]) = some node →
    start.lookup (folder ++ [name]) = some node ∨
      (∃ entry ∈ ledger.written, name = asCommitted entry.1) ∨
      node.kind = .file ∧ ∀ base, name ≠ asCommitted base
  present : ∀ entry ∈ ledger.written, entry.1 ∉ ledger.gone →
    ∃ record modified, entry.2.record = .ok record ∧
      tree.lookup (folder ++ [asCommitted entry.1]) = some (.file record modified)
  absent : ∀ base ∈ ledger.gone, tree.lookup (folder ++ [asCommitted base]) = none
  source : ∀ base ∈ ledger.gone, base ∈ ledger.written.map Prod.fst ∨
    start.lookup (folder ++ [asCommitted base]) ≠ none
  delivered : ∀ entry ∈ ledger.taken,
    (∃ payload, (entry.1, payload) ∈ ledger.written ∧ entry.2 = payload.transmission) ∨
      ∃ content modified,
        start.lookup (folder ++ [asCommitted entry.1]) = some (.file content modified) ∧
          Record.decode content = .ok entry.2
  apart : ∀ entry ∈ ledger.written, ∀ extension ∈ FileNames.extensions,
    start.lookup (folder ++ [FileNames.withExtension entry.1 extension]) = none

theorem explains_empty (folder : Key) (start : FileTree) : Explains folder start start empty where
  distinct := List.nodup_nil
  once := List.nodup_nil
  entries _ _ there := .inl there
  present := by simp [empty, written]
  absent := by simp [empty, gone]
  source := by simp [empty, gone]
  delivered := by simp [empty]
  apart := by simp [empty, written]

/-! ### Changes that concern no record -/

theorem Explains.quiet (h : Explains folder start before ledger)
    (quiet : Quiet folder before after) : Explains folder start after ledger where
  distinct := h.distinct
  once := h.once
  entries name node there := by
    rcases quiet name with same | ⟨spare, file⟩
    · exact h.entries name node (same.symm.trans there)
    · exact .inr (.inr ⟨file node there, spare⟩)
  present entry mem here := by
    rw [quiet.lookup_committed]
    exact h.present entry mem here
  absent base mem := by
    rw [quiet.lookup_committed]
    exact h.absent base mem
  source := h.source
  delivered := h.delivered
  apart := h.apart

/-! ### Storing and taking -/

theorem Explains.notMem_gone (h : Explains folder start before ledger)
    (new : base ∉ ledger.written.map Prod.fst)
    (apart : ∀ extension ∈ FileNames.extensions,
      start.lookup (folder ++ [FileNames.withExtension base extension]) = none) :
    base ∉ ledger.gone := by
  intro mem
  rcases h.source base mem with there | there
  · exact new there
  · exact there (apart _ FileNames.committed_mem_extensions)

/-- A record is entered with a name that was neither in the folder nor in the ledger. -/
theorem Explains.store {payload : Payload} {record : Bytes} {later : Ledger}
    (h : Explains folder start before ledger)
    (committed : Committed folder base record before after) (encoded : payload.record = .ok record)
    (new : base ∉ ledger.written.map Prod.fst)
    (apart : ∀ extension ∈ FileNames.extensions,
      start.lookup (folder ++ [FileNames.withExtension base extension]) = none)
    (written : later.written.Perm ((base, payload) :: ledger.written))
    (taken : later.taken = ledger.taken) (lost : later.lost = ledger.lost) :
    Explains folder start after later := by
  have gone : later.gone = ledger.gone := by
    unfold Ledger.gone
    rw [taken, lost]
  have here := h.notMem_gone new apart
  obtain ⟨modified, sets⟩ := committed.sets
  have other : ∀ {name}, name ≠ base →
      after.lookup (folder ++ [asCommitted name]) = before.lookup (folder ++ [asCommitted name]) :=
    fun different => sets.lookup_sibling fun same =>
      different (FileNames.withExtension_injective same)
  have mem_written : ∀ {entry},
      entry ∈ later.written ↔ entry = (base, payload) ∨ entry ∈ ledger.written := by
    intro entry
    rw [written.mem_iff, List.mem_cons]
  constructor
  · rw [(written.map Prod.fst).nodup_iff, List.map_cons, List.nodup_cons]
    exact ⟨new, h.distinct⟩
  · rw [gone]
    exact h.once
  · intro name node there
    by_cases own : name = asCommitted base
    · exact .inr (.inl ⟨(base, payload), mem_written.mpr (.inl rfl), own⟩)
    · rw [sets.lookup_sibling own] at there
      rcases h.entries name node there with same | ⟨entry, mem, same⟩ | spare
      · exact .inl same
      · exact .inr (.inl ⟨entry, mem_written.mpr (.inr mem), same⟩)
      · exact .inr (.inr spare)
  · intro entry mem left
    rw [gone] at left
    rcases mem_written.mp mem with rfl | old
    · exact ⟨record, modified, encoded, sets.lookup_self⟩
    · rw [other fun same => new (same ▸ List.mem_map_of_mem old)]
      exact h.present entry old left
  · intro name mem
    rw [gone] at mem
    rw [other fun same => here (same ▸ mem)]
    exact h.absent name mem
  · intro name mem
    rw [gone] at mem
    rcases h.source name mem with there | there
    · left
      obtain ⟨entry, old, same⟩ := List.mem_map.mp there
      exact List.mem_map.mpr ⟨entry, mem_written.mpr (.inr old), same⟩
    · exact .inr there
  · intro entry mem
    rw [taken] at mem
    rcases h.delivered entry mem with ⟨payload, old, same⟩ | there
    · exact .inl ⟨payload, mem_written.mpr (.inr old), same⟩
    · exact .inr there
  · intro entry mem
    rcases mem_written.mp mem with rfl | old
    · exact apart
    · exact h.apart entry old

/-- A record that is there is one of the ledger, as it was written, or a file that has
been in the folder from the start. -/
theorem Explains.record (h : Explains folder start before ledger) {content : Bytes}
    {modified : Int}
    (there : before.lookup (folder ++ [asCommitted base]) = some (.file content modified)) :
    base ∉ ledger.gone ∧
      ((∃ payload, (base, payload) ∈ ledger.written ∧ payload.record = .ok content) ∨
        base ∉ ledger.written.map Prod.fst ∧
          start.lookup (folder ++ [asCommitted base]) = some (.file content modified)) := by
  have here : base ∉ ledger.gone := by
    intro mem
    rw [h.absent base mem] at there
    cases there
  refine ⟨here, ?_⟩
  by_cases known : base ∈ ledger.written.map Prod.fst
  · obtain ⟨⟨name, payload⟩, mem, rfl⟩ := List.mem_map.mp known
    obtain ⟨record, modified', encoded, there'⟩ := h.present _ mem here
    rw [there] at there'
    cases there'
    exact .inl ⟨payload, mem, encoded⟩
  · right
    refine ⟨known, ?_⟩
    rcases h.entries _ _ there with same | ⟨entry, mem, same⟩ | ⟨-, spare⟩
    · exact same
    · refine absurd ?_ known
      rw [FileNames.withExtension_injective same]
      exact List.mem_map_of_mem mem
    · exact absurd rfl (spare base)

/-- A record is taken once. -/
theorem Explains.take {content : Bytes} {later : Ledger}
    (h : Explains folder start before ledger) (took : Took folder base content before after)
    (written : later.written = ledger.written) (gone : later.gone.Perm (base :: ledger.gone))
    (delivered : ∀ entry ∈ later.taken, entry ∈ ledger.taken ∨
      entry.1 = base ∧ Record.decode content = .ok entry.2)
    (short : ∀ entry ∈ ledger.written, entry.2.transmission.content.length < 2 ^ 64) :
    Explains folder start after later := by
  obtain ⟨modified, there⟩ := took.there
  obtain ⟨here, origin⟩ := h.record there
  have mem_gone : ∀ {name}, name ∈ later.gone ↔ name = base ∨ name ∈ ledger.gone := by
    intro name
    rw [gone.mem_iff, List.mem_cons]
  constructor
  · rw [written]
    exact h.distinct
  · rw [gone.nodup_iff, List.nodup_cons]
    exact ⟨here, h.once⟩
  · intro name node found
    rw [written]
    by_cases committed : name = asCommitted base
    · rw [committed, took.lookup_committed] at found
      cases found
    · by_cases temporary : name = asTemporary base
      · obtain ⟨node?, file, lookup⟩ := took.left
        rw [temporary, lookup, if_pos rfl] at found
        refine .inr (.inr ⟨file node found, ?_⟩)
        intro name same
        exact FileNames.committed_ne_temporary name base (same.symm.trans temporary)
      · rw [took.lookup_other committed temporary] at found
        exact h.entries name node found
  · intro entry mem left
    rw [written] at mem
    rw [mem_gone, not_or] at left
    rw [took.lookup_committed_other left.1]
    exact h.present entry mem left.2
  · intro name mem
    rcases mem_gone.mp mem with rfl | old
    · exact took.lookup_committed
    · rw [took.lookup_committed_other fun same => here (same ▸ old)]
      exact h.absent name old
  · intro name mem
    rw [written]
    rcases mem_gone.mp mem with rfl | old
    · rcases origin with ⟨payload, stored, -⟩ | ⟨-, there⟩
      · exact .inl (List.mem_map_of_mem stored)
      · exact .inr (by simp [there])
    · exact h.source name old
  · intro entry mem
    rw [written]
    rcases delivered entry mem with old | ⟨same, decoded⟩
    · exact h.delivered entry old
    · rw [same]
      rcases origin with ⟨payload, stored, encoded⟩ | ⟨-, there⟩
      · rw [payload.decode_record encoded (short _ stored)] at decoded
        exact .inl ⟨payload, stored, (Except.ok.inj decoded).symm⟩
      · exact .inr ⟨content, modified, there, decoded⟩
  · rw [written]
    exact h.apart

/-- What is delivered under the name of a record is what was written under it. -/
theorem Explains.mem_taken (h : Explains folder start before ledger) {entry : Name × Payload}
    (mem : entry ∈ ledger.written) (taken : entry.1 ∈ ledger.taken.map Prod.fst) :
    (entry.1, entry.2.transmission) ∈ ledger.taken := by
  obtain ⟨delivery, there, same⟩ := List.mem_map.mp taken
  rcases h.delivered delivery there with ⟨payload, written, eq⟩ | ⟨content, modified, old, -⟩
  · have own := List.inj_on_of_nodup_map h.distinct written mem same
    rw [← own, ← eq]
    exact there
  · rw [same, h.apart entry mem _ FileNames.committed_mem_extensions] at old
    cases old

/-! ### The books -/

/-- A name was drawn by a queue that has been opened, and fits behind its path. -/
structure Issued (history : History) (name : Name) : Prop where
  drawn : ∃ millis token sequence, name = FileNames.generated millis token sequence ∧
    token ∈ history.tokens ∧ sequence.toNat < history.drawn token
  fits : ∃ directory ∈ history.directories, Fits directory (asCommitted name)

/-- The ledger is true of the folder and in line with the history. -/
structure Books (folder : Key) (start : Host) (history : History) (tree : FileTree)
    (ledger : Ledger) : Prop where
  explains : Explains folder start.tree tree ledger
  issued : ∀ entry ∈ ledger.written, Issued history entry.1
  kept : ledger.kept.map Prod.snd = history.stored
  orphans : ∀ entry ∈ ledger.orphans, entry.2 ∈ history.passed
  taken : ledger.taken.map Prod.snd = history.delivered
  vain : ledger.lost.length ≤ history.vain
  whole : start.Faultless → history.IsWhole →
    ledger.orphans = [] ∧ ∀ base ∈ ledger.lost, base ∉ ledger.written.map Prod.fst

variable {host : Host} {history : History} {happening : Happening} {payload : Payload}
  {record : Bytes}

theorem Issued.later {name : Name} (h : Issued history name) (happening : Happening) :
    Issued (history ++ [happening]) name := by
  obtain ⟨millis, token, sequence, eq, mem, bound⟩ := h.drawn
  obtain ⟨directory, path, fits⟩ := h.fits
  constructor
  · refine ⟨millis, token, sequence, eq, by simp [mem], ?_⟩
    rw [History.drawn_append]
    omega
  · exact ⟨directory, by simp [path], fits⟩

theorem books_empty (folder : Key) (start : Host) : Books folder start [] start.tree empty where
  explains := explains_empty folder start.tree
  issued := by simp [empty, written]
  kept := rfl
  orphans := by simp [empty]
  taken := rfl
  vain := Nat.le_refl _
  whole _ _ := ⟨rfl, by simp [empty]⟩

/-- What concerns no record leaves the ledger as it is. -/
theorem Books.quiet (h : Books folder host history before ledger)
    (quiet : Quiet folder before after) (stored : happening.stored? = none)
    (delivered : happening.delivered? = none) :
    Books folder host (history ++ [happening]) after ledger where
  explains := h.explains.quiet quiet
  issued entry mem := (h.issued entry mem).later happening
  kept := by simp [h.kept, stored]
  orphans entry mem := by simp [h.orphans entry mem]
  taken := by simp [h.taken, delivered]
  vain := by
    rw [History.vain_append]
    exact Nat.le_trans h.vain (Nat.le_add_right _ _)
  whole faultless whole := h.whole faultless whole.init

/-- Storing that is confirmed. -/
theorem Books.keep (h : Books folder host history before ledger)
    (committed : Committed folder base record before after) (encoded : payload.record = .ok record)
    (new : base ∉ ledger.written.map Prod.fst)
    (apart : ∀ extension ∈ FileNames.extensions,
      host.tree.lookup (folder ++ [FileNames.withExtension base extension]) = none)
    (issued : Issued (history ++ [happening]) base) (stored : happening.stored? = some payload)
    (delivered : happening.delivered? = none) :
    Books folder host (history ++ [happening]) after
      { ledger with kept := ledger.kept ++ [(base, payload)] } := by
  have perm : Ledger.written { ledger with kept := ledger.kept ++ [(base, payload)] }
      |>.Perm ((base, payload) :: ledger.written) := by
    unfold Ledger.written
    rw [List.append_assoc]
    exact List.perm_middle
  have here := h.explains.notMem_gone new apart
  constructor
  · exact h.explains.store committed encoded new apart perm rfl rfl
  · intro entry mem
    rcases List.mem_cons.mp (perm.subset mem) with rfl | old
    · exact issued
    · exact (h.issued entry old).later happening
  · simp [h.kept, stored]
  · intro entry mem
    simp [h.orphans entry mem]
  · simp [h.taken, delivered]
  · rw [History.vain_append]
    exact Nat.le_trans h.vain (Nat.le_add_right _ _)
  · intro faultless whole
    obtain ⟨none, apart⟩ := h.whole faultless whole.init
    refine ⟨none, ?_⟩
    intro name mem
    rw [(perm.map Prod.fst).mem_iff, List.map_cons, List.mem_cons, not_or]
    refine ⟨?_, apart name mem⟩
    rintro rfl
    exact here (List.mem_append_right _ mem)

/-- Storing that is cut off when the record is there already. -/
theorem Books.orphan (h : Books folder host history before ledger)
    (committed : Committed folder base record before after) (encoded : payload.record = .ok record)
    (new : base ∉ ledger.written.map Prod.fst)
    (apart : ∀ extension ∈ FileNames.extensions,
      host.tree.lookup (folder ++ [FileNames.withExtension base extension]) = none)
    (issued : Issued (history ++ [happening]) base) (asked : happening.payload? = some payload)
    (stored : happening.stored? = none) (delivered : happening.delivered? = none)
    (cut : happening.isCut = true) :
    Books folder host (history ++ [happening]) after
      { ledger with orphans := ledger.orphans ++ [(base, payload)] } := by
  have perm : Ledger.written { ledger with orphans := ledger.orphans ++ [(base, payload)] }
      |>.Perm ((base, payload) :: ledger.written) := by
    unfold Ledger.written
    rw [← List.append_assoc]
    exact List.perm_append_singleton _ _
  constructor
  · exact h.explains.store committed encoded new apart perm rfl rfl
  · intro entry mem
    rcases List.mem_cons.mp (perm.subset mem) with rfl | old
    · exact issued
    · exact (h.issued entry old).later happening
  · simp [h.kept, stored]
  · intro entry mem
    rcases List.mem_append.mp mem with old | last
    · simp [h.orphans entry old]
    · rw [List.mem_singleton.mp last]
      simp [asked]
  · simp [h.taken, delivered]
  · rw [History.vain_append]
    exact Nat.le_trans h.vain (Nat.le_add_right _ _)
  · intro _ whole
    have uncut := whole happening (by simp)
    rw [cut] at uncut
    cases uncut

/-- Taking that delivers what the record holds. -/
theorem Books.deliver (h : Books folder host history before ledger) {content : Bytes}
    {transmission : Transmission} (took : Took folder base content before after)
    (decoded : Record.decode content = .ok transmission)
    (short : ∀ entry ∈ ledger.written, entry.2.transmission.content.length < 2 ^ 64)
    (stored : happening.stored? = none) (delivered : happening.delivered? = some transmission) :
    Books folder host (history ++ [happening]) after
      { ledger with taken := ledger.taken ++ [(base, transmission)] } := by
  have perm : Ledger.gone { ledger with taken := ledger.taken ++ [(base, transmission)] }
      |>.Perm (base :: ledger.gone) := by
    unfold Ledger.gone
    rw [List.map_append, List.append_assoc]
    exact List.perm_middle
  constructor
  · refine h.explains.take took rfl perm ?_ short
    intro entry mem
    rcases List.mem_append.mp mem with old | last
    · exact .inl old
    · rw [List.mem_singleton.mp last]
      exact .inr ⟨rfl, decoded⟩
  · exact fun entry mem => (h.issued entry mem).later happening
  · simp [h.kept, stored]
  · exact fun entry mem => by simp [h.orphans entry mem]
  · simp [h.taken, delivered]
  · rw [History.vain_append]
    exact Nat.le_trans h.vain (Nat.le_add_right _ _)
  · exact fun faultless whole => h.whole faultless whole.init

/-- Taking that delivers nothing although the record has lost its name. -/
theorem Books.lose (h : Books folder host history before ledger) {content : Bytes}
    (took : Took folder base content before after)
    (short : ∀ entry ∈ ledger.written, entry.2.transmission.content.length < 2 ^ 64)
    (stored : happening.stored? = none) (delivered : happening.delivered? = none)
    (vain : happening.isVain = true)
    (blameless : host.Faultless → happening.isCut = false → base ∉ ledger.written.map Prod.fst) :
    Books folder host (history ++ [happening]) after
      { ledger with lost := ledger.lost ++ [base] } := by
  have perm : Ledger.gone { ledger with lost := ledger.lost ++ [base] }
      |>.Perm (base :: ledger.gone) := by
    unfold Ledger.gone
    rw [← List.append_assoc]
    exact List.perm_append_singleton _ _
  constructor
  · exact h.explains.take took rfl perm (fun _ mem => .inl mem) short
  · exact fun entry mem => (h.issued entry mem).later happening
  · simp [h.kept, stored]
  · exact fun entry mem => by simp [h.orphans entry mem]
  · simp [h.taken, delivered]
  · rw [History.vain_append, if_pos vain, List.length_append]
    exact Nat.succ_le_succ h.vain
  · intro faultless whole
    obtain ⟨none, apart⟩ := h.whole faultless whole.init
    refine ⟨none, ?_⟩
    intro name mem
    rcases List.mem_append.mp mem with old | last
    · exact apart name old
    · rw [List.mem_singleton.mp last]
      exact blameless faultless (whole happening (by simp))

/-! ### Names that are new -/

/-- A name that is new to the ledger and to the folder as it was at the start is free. -/
theorem Explains.lookup_of_new (h : Explains folder start after ledger)
    (new : base ∉ ledger.written.map Prod.fst)
    (apart : start.lookup (folder ++ [asCommitted base]) = none) :
    after.lookup (folder ++ [asCommitted base]) = none := by
  cases there : after.lookup (folder ++ [asCommitted base]) with
  | none => rfl
  | some node =>
    rcases h.entries _ node there with old | ⟨entry, mem, same⟩ | ⟨-, spare⟩
    · rw [apart] at old
      cases old
    · rw [FileNames.withExtension_injective same] at new
      exact absurd (List.mem_map_of_mem mem) new
    · exact absurd rfl (spare base)

/-- No name with a token that is allowed was in the folder from the start. -/
theorem lookup_eq_none_of_contains {token : ProcessToken}
    (allowed : History.Allowed folder start history) (mem : token ∈ history.tokens) {name : Name}
    (carries : FileNames.contains token.bytes name = true) :
    start.lookup (folder ++ [name]) = none := by
  cases there : start.lookup (folder ++ [name]) with
  | none => rfl
  | some node =>
    rw [allowed.unused token mem name node there] at carries
    cases carries

/-- A queue draws no name a second time. -/
theorem Books.notMem_written {queue : Queue} {offset : Nat}
    (h : Books folder host history before ledger)
    (valid : ∀ token ∈ history.tokens, token.IsValid) (known : queue.token ∈ history.tokens)
    (number : queue.sequence.toNat = history.drawn queue.token)
    (room : queue.sequence.toNat + offset < 2 ^ 64) (millis : Int) :
    queue.base millis offset ∉ ledger.written.map Prod.fst := by
  intro mem
  obtain ⟨entry, old, same⟩ := List.mem_map.mp mem
  obtain ⟨millis', token, sequence, eq, issued, bound⟩ := (h.issued entry old).drawn
  rw [same] at eq
  obtain ⟨-, rfl, rfl⟩ := FileNames.generated_injective (valid _ known) (valid _ issued) eq
  rw [Fleet.toNat_add_ofNat room] at bound
  omega

/-- The file of the check has a name that no directory and no link has. -/
theorem Books.isPlain_checkName {token : ProcessToken}
    (h : Books folder host history before ledger) (valid : token.IsValid)
    (unused : ∀ name node, host.tree.lookup (folder ++ [name]) = some node →
      FileNames.contains token.bytes name = false) :
    before.IsPlain folder (Queue.checkName token) := by
  intro node there
  rcases h.explains.entries _ _ there with old | ⟨entry, -, same⟩ | ⟨file, -⟩
  · have carries : FileNames.contains token.bytes (Queue.checkName token) = true := by
      have whole := FileNames.contains_append (Utf8.encode ".write-check-") token.bytes []
      rwa [List.append_nil] at whole
    rw [unused _ _ old] at carries
    cases carries
  · exact absurd same (FileNames.append_bytes_ne_withExtension _ valid
      FileNames.committed_mem_extensions)
  · exact file

/-- The temporary name of a record of the ledger belongs to a file, or to nobody. -/
theorem Books.isPlain_temporary (h : Books folder host history before ledger)
    (mem : base ∈ ledger.written.map Prod.fst) : before.IsPlain folder (asTemporary base) := by
  intro node there
  obtain ⟨entry, written, rfl⟩ := List.mem_map.mp mem
  rcases h.explains.entries _ _ there with old | ⟨other, -, same⟩ | ⟨file, -⟩
  · rw [h.explains.apart entry written _ FileNames.temporary_mem_extensions] at old
    cases old
  · exact absurd same.symm (FileNames.committed_ne_temporary _ _)
  · exact file

theorem Books.written_mem_passed (h : Books folder host history before ledger)
    (entry : Name × Payload) (mem : entry ∈ ledger.written) : entry.2 ∈ history.passed := by
  rcases List.mem_append.mp mem with kept | orphan
  · have stored : entry.2 ∈ history.stored := h.kept ▸ List.mem_map_of_mem kept
    exact History.stored_subset_passed stored
  · exact h.orphans entry orphan

theorem Books.short (h : Books folder host history before ledger)
    (allowed : History.Allowed folder start history) (entry : Name × Payload)
    (mem : entry ∈ ledger.written) : entry.2.transmission.content.length < 2 ^ 64 :=
  Nat.lt_trans (allowed.lengths _ (h.written_mem_passed entry mem)) (by decide)

/-! ### Steps -/

/-- A record loses its name to an attempt to take it. -/
def Loses (folder : Key) (happening : Happening) (before after : FileTree) (base : Name) : Prop :=
  happening.takes = true ∧ ∃ content, Took folder base content before after

/-- The books of a folder are carried on over a piece of work, and the names that leave
them have been lost in that work. -/
def Continues (folder : Key) (start : Host) (history : History) (ledger : Ledger)
    (happening : Happening) (before after : FileTree) : Prop :=
  ∃ later, Books folder start (history ++ [happening]) after later ∧
    ∀ base ∈ later.gone, base ∈ ledger.gone ∨ Loses folder happening before after base

theorem Books.continues (h : Books folder host history before ledger)
    (quiet : Quiet folder before after) (stored : happening.stored? = none)
    (delivered : happening.delivered? = none) :
    Continues folder host history ledger happening before after :=
  ⟨ledger, h.quiet quiet stored delivered, fun _ mem => .inl mem⟩

theorem Books.continues_lose (h : Books folder host history before ledger) {content : Bytes}
    (took : Took folder base content before after)
    (short : ∀ entry ∈ ledger.written, entry.2.transmission.content.length < 2 ^ 64)
    (takes : happening.takes = true) (stored : happening.stored? = none)
    (delivered : happening.delivered? = none)
    (blameless : host.Faultless → happening.isCut = false → base ∉ ledger.written.map Prod.fst) :
    Continues folder host history ledger happening before after := by
  have vain : happening.isVain = true := by simp [Happening.isVain, takes, delivered]
  refine ⟨_, h.lose took short stored delivered vain blameless, ?_⟩
  intro name mem
  rw [gone, List.mem_append, List.mem_append, List.mem_singleton] at mem
  rcases mem with old | old | rfl
  · exact .inl (List.mem_append_left _ old)
  · exact .inl (List.mem_append_right _ old)
  · exact .inr ⟨takes, content, took⟩

theorem Books.continues_deliver (h : Books folder host history before ledger) {content : Bytes}
    {transmission : Transmission} (took : Took folder base content before after)
    (decoded : Record.decode content = .ok transmission)
    (short : ∀ entry ∈ ledger.written, entry.2.transmission.content.length < 2 ^ 64)
    (takes : happening.takes = true) (stored : happening.stored? = none)
    (delivered : happening.delivered? = some transmission) :
    Continues folder host history ledger happening before after := by
  refine ⟨_, h.deliver took decoded short stored delivered, ?_⟩
  intro name mem
  rw [gone, List.map_append, List.mem_append, List.mem_append, List.map_singleton,
    List.mem_singleton] at mem
  rcases mem with (old | rfl) | old
  · exact .inl (List.mem_append_left _ old)
  · exact .inr ⟨takes, content, took⟩
  · exact .inl (List.mem_append_right _ old)

/-- What a queue takes from the folder is delivered, or its own content was at fault. -/
theorem Books.take {queue later : Queue} {first last : Host}
    {result : Except QueueError (Option Transmission)}
    (h : Books folder host history first.tree ledger)
    (short : ∀ entry ∈ ledger.written, entry.2.transmission.content.length < 2 ^ 64)
    (faultless : host.Faultless → first.Faultless)
    (outcome : Queue.DequeueOutcome queue folder first last (result, later))
    (takes : happening.takes = true) (stored : happening.stored? = none)
    (delivered : happening.delivered? = result.toOption.join) :
    Continues folder host history ledger happening first.tree last.tree := by
  have unchanged : last.tree = first.tree → happening.delivered? = none →
      Continues folder host history ledger happening first.tree last.tree :=
    fun same => h.continues (fun _ => .inl (by rw [same])) stored
  cases outcome with
  | unlisted e same => exact unchanged same delivered
  | nothing same => exact unchanged same delivered
  | claimed base result taken slash claim consumed =>
    cases consumed with
    | failed e same => exact unchanged same delivered
    | took content _ took answer =>
      rcases answer with rfl | ⟨⟨e, rfl⟩, why⟩
      · unfold Stored.decoded at delivered
        cases decoded : Record.decode content with
        | ok transmission =>
          rw [decoded] at delivered
          exact h.continues_deliver took decoded short takes stored delivered
        | error e =>
          rw [decoded] at delivered
          apply h.continues_lose took short takes stored delivered
          intro _ _ mem
          -- A record of the ledger can be read, so this one has been there from the start.
          obtain ⟨modified, there⟩ := took.there
          rcases (h.explains.record there).2 with ⟨payload, written, encoded⟩ | ⟨new, -⟩
          · rw [payload.decode_record encoded (short _ written)] at decoded
            cases decoded
          · exact new mem
      · apply h.continues_lose took short takes stored delivered
        intro clean _ mem
        obtain ⟨modified, there⟩ := took.there
        exact why ⟨(faultless clean).steady, Queue.keptInReach_of_plain there (h.isPlain_temporary mem)⟩

/-- A name that a queue draws is not that of a record. -/
theorem Books.lookup_drawn {queue : Queue} {offset : Nat}
    (h : Books folder host history before ledger)
    (allowed : History.Allowed folder host.tree history) (known : queue.token ∈ history.tokens)
    (number : queue.sequence.toNat = history.drawn queue.token)
    (room : queue.sequence.toNat + offset < 2 ^ 64) (millis : Int) :
    before.lookup (folder ++ [asCommitted (queue.base millis offset)]) = none := by
  apply h.explains.lookup_of_new (h.notMem_written allowed.valid known number room millis)
  exact lookup_eq_none_of_contains allowed known (FileNames.contains_generated _ _ _ _)

/-- A name that a queue draws is new to the folder and to the ledger. -/
theorem Books.fresh {queue : Queue} {offset : Nat}
    (h : Books folder host history before ledger)
    (allowed : History.Allowed folder host.tree (history ++ [happening]))
    (known : queue.token ∈ history.tokens) (path : queue.directory ∈ history.directories)
    (number : queue.sequence.toNat = history.drawn queue.token)
    (counted : offset < happening.drawn queue.token) (millis : Int)
    (fits : Fits queue.directory (asTemporary (queue.base millis offset))) :
    queue.base millis offset ∉ ledger.written.map Prod.fst ∧
      (∀ extension ∈ FileNames.extensions, host.tree.lookup
        (folder ++ [FileNames.withExtension (queue.base millis offset) extension]) = none) ∧
      Issued (history ++ [happening]) (queue.base millis offset) := by
  have earlier := allowed.init
  have room := allowed.numbers queue.token (by simp [known])
  rw [History.drawn_append, ← number] at room
  refine ⟨h.notMem_written earlier.valid known number (by omega) millis, ?_, ?_, ?_⟩
  · intro extension mem
    exact lookup_eq_none_of_contains earlier known (FileNames.contains_generated _ _ _ _)
  · refine ⟨millis, queue.token, _, rfl, by simp [known], ?_⟩
    rw [Fleet.toNat_add_ofNat (by omega), History.drawn_append, number]
    omega
  · have slash := Queue.slash_notMem_base (earlier.valid _ known) millis offset
    exact ⟨queue.directory, by simp [path], FileNames.fits_asCommitted slash fits⟩

/-- What a queue answers is entered in the books. -/
theorem Books.served {queue later : Queue} {request : Request} {answer : Answer}
    {first last : Host} {count : Nat} (h : Books folder host history first.tree ledger)
    (allowed : History.Allowed folder host.tree
      (history ++ [.answered queue.token request answer count]))
    (faultless : host.Faultless → first.Faultless)
    (known : queue.token ∈ history.tokens) (path : queue.directory ∈ history.directories)
    (number : queue.sequence.toNat = history.drawn queue.token)
    (counts : ∀ drawn, drawn ≤ Queue.maxStagingAttempts →
      later.sequence = queue.sequence + UInt64.ofNat drawn → count = drawn)
    (served : Queue.Served queue folder first last request (answer, later)) :
    Continues folder host history ledger (.answered queue.token request answer count)
      first.tree last.tree := by
  have quietly : Quiet folder first.tree last.tree → request.stored? answer = none →
      answer.delivered? = none →
      Continues folder host history ledger (.answered queue.token request answer count)
        first.tree last.tree :=
    fun quiet stored silent => h.continues quiet stored silent
  cases served with
  | storing payload _ result _ asked said silent outcome =>
    rcases outcome with ⟨⟨e, rfl⟩, rfl, same⟩ | ⟨record, encoded, outcome⟩
    · exact quietly (fun _ => .inl (by rw [same])) said silent
    cases outcome with
    | refused e drawn bound same => exact quietly (fun _ => .inl (by rw [same])) said silent
    | abandoned e number offset bound begun => exact quietly (quiet_of_begun begun) said silent
    | stored number' offset bound since before fits committed =>
      have counted : count = offset + 1 := counts _ bound rfl
      obtain ⟨new, apart, issued⟩ := h.fresh allowed known path number
        (by rw [Happening.drawn, if_pos rfl, counted]; exact Nat.lt_succ_self _) _ fits
      refine ⟨_, h.keep committed encoded new apart issued said silent, ?_⟩
      exact fun _ mem => .inl mem
  | taking _ result _ asked silent said outcome =>
    exact h.take (h.short allowed.init) faultless outcome asked silent said
  | other _ capacityMb asked takesNone silent silent' swept =>
    exact quietly (quiet_of_swept swept) silent silent'

/-- What work leaves behind that is cut off is entered in the books. -/
theorem Books.cut {queue : Queue} {request : Request} {tree : FileTree}
    (h : Books folder host history before ledger)
    (allowed : History.Allowed folder host.tree (history ++ [.cut queue.token request]))
    (known : queue.token ∈ history.tokens) (path : queue.directory ∈ history.directories)
    (number : queue.sequence.toNat = history.drawn queue.token)
    (left : Queue.RequestCut queue folder request before tree) :
    Continues folder host history ledger (.cut queue.token request) before tree := by
  have quietly : Quiet folder before tree →
      Continues folder host history ledger (.cut queue.token request) before tree :=
    fun quiet => h.continues quiet rfl rfl
  unfold Queue.RequestCut at left
  split at left
  · rename_i payload asked
    rcases left with rfl | ⟨record, encoded, rfl | ⟨millis, offset, bound, begun | ⟨fits, there⟩⟩⟩
    · exact quietly fun _ => .inl rfl
    · exact quietly fun _ => .inl rfl
    · exact quietly (quiet_of_begun begun)
    · obtain ⟨new, apart, issued⟩ := h.fresh allowed known path number
        (by rwa [Happening.drawn, if_pos rfl]) millis fits
      refine ⟨_, h.orphan there encoded new apart issued asked rfl rfl rfl, ?_⟩
      exact fun _ mem => .inl mem
  · rcases left with swept | ⟨takes, rfl | ⟨base, content, slash, took⟩⟩
    · exact quietly (quiet_of_swept swept)
    · exact quietly fun _ => .inl rfl
    · refine h.continues_lose took (h.short allowed.init) takes rfl rfl ?_
      intro _ uncut
      cases uncut

variable {fleet last : Fleet}

/-- The file of the check is no obstacle to a queue that is opened. -/
theorem Books.plain (h : Books folder host history before ledger)
    (allowed : History.Allowed folder host.tree (history ++ [happening])) {token : ProcessToken}
    (opens : happening.token? = some token) : before.IsPlain folder (Queue.checkName token) := by
  have mem : token ∈ (history ++ [happening]).tokens := by simp [opens]
  exact h.isPlain_checkName (allowed.valid token mem) (allowed.unused token mem)

/-- The books are kept through every step of the queues. -/
theorem Books.step (h : Books folder host history fleet.host.tree ledger)
    (crew : Fleet.Crew folder host history fleet)
    (allowed : History.Allowed folder host.tree (history ++ [happening]))
    (step : Fleet.Step folder fleet happening last) :
    Continues folder host history ledger happening fleet.host.tree last.host.tree := by
  have earlier := allowed.init
  have plain : ∀ token, happening.token? = some token →
      fleet.host.tree.IsPlain folder (Queue.checkName token) :=
    fun token opens => h.plain allowed opens
  have valid : ∀ token, happening.token? = some token → token.IsValid :=
    fun token opens => allowed.valid token (by simp [opens])
  cases step with
  | opened first last queues options fallback token queue reaches run =>
    have outcome := (Queue.meets_openWith (crew.offers.serves reaches) reaches (valid token rfl)
      (plain token rfl)).run
    rw [run] at outcome
    exact h.continues (outcome.quiet (valid token rfl)) rfl rfl
  | refused first last queues options fallback token e reaches run =>
    have outcome := (Queue.meets_openWith (crew.offers.serves reaches) reaches (valid token rfl)
      (plain token rfl)).run
    rw [run] at outcome
    exact h.continues (outcome.quiet (valid token rfl)) rfl rfl
  | answered first last front behind queue left request answer run =>
    obtain ⟨serves, sound, valid, known, path, number⟩ := crew.member earlier.valid
    have served := (Queue.meets_request request serves sound valid).run
    rw [run] at served
    refine h.served allowed crew.later.faultless known path number ?_ served
    intro drawn bound sequence
    have counted := Fleet.drawn_answered request answer bound sequence
    rwa [Happening.drawn, if_pos rfl] at counted
  | closed first front behind queue => exact h.continues (fun _ => .inl rfl) rfl rfl
  | cutOpening first last queues options fallback token reaches stopped =>
    have checked := (Queue.meets_openWith (crew.offers.serves reaches) reaches (valid token rfl)
      (plain token rfl)).cut stopped
    exact h.continues (Queue.quiet_of_checked (valid token rfl) checked) rfl rfl
  | cut first last front behind queue request stopped =>
    obtain ⟨serves, sound, valid, known, path, number⟩ := crew.member earlier.valid
    exact h.cut allowed known path number
      ((Queue.meets_request request serves sound valid).cut stopped)

/-- In a run a record has lost its name to an attempt to take it. -/
def LostName (folder : Key) (fleet : Fleet) (history : History) (base : Name) : Prop :=
  ∃ (earlier later : History) (happening : Happening) (mid next : Fleet),
    history = earlier ++ happening :: later ∧ Fleet.Run folder fleet earlier mid ∧
      Fleet.Step folder mid happening next ∧
      Loses folder happening mid.host.tree next.host.tree base

/-- Books are kept along every run. -/
theorem exists_books (offers : host.Offers folder)
    (run : Fleet.Run folder ⟨host, []⟩ history fleet)
    (allowed : History.Allowed folder host.tree history) :
    Fleet.Crew folder host history fleet ∧
      ∃ ledger, Books folder host history fleet.host.tree ledger ∧
        ∀ base ∈ ledger.gone, LostName folder ⟨host, []⟩ history base := by
  induction run with
  | start => exact ⟨Fleet.Crew.none offers, empty, books_empty folder host, by simp [empty, gone]⟩
  | step mid after history happening run step ih =>
    obtain ⟨crew, ledger, books, named⟩ := ih allowed.init
    have plain : ∀ token, happening.token? = some token →
        mid.host.tree.IsPlain folder (Queue.checkName token) :=
      fun token opens => books.plain allowed opens
    obtain ⟨ledger', books', charged⟩ := books.step crew allowed step
    refine ⟨crew.step allowed plain step, ledger', books', ?_⟩
    intro base mem
    rcases charged base mem with old | loses
    · obtain ⟨earlier, later, other, first, next, rfl, before, taking, loses⟩ := named base old
      exact ⟨earlier, later ++ [happening], other, first, next, by simp, before, taking, loses⟩
    · exact ⟨history, [], happening, mid, after, rfl, run, step, loses⟩

end Ledger
end DiskQueue
