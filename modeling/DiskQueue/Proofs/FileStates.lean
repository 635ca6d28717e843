/-
Module: DiskQueue.Proofs.FileStates
Purpose: A file keeps its base name while its extension changes, and a file that is being
  written has one.
Trusted boundary: none
Main exports:
  FileNames.IsBase, FileNames.Named, FileNames.named_iff, FileNames.InStep,
  FileNames.Becomes, Queue.Created, Queue.Blamed, Queue.kept_in_step
-/
import DiskQueue.Proofs.Attempts
import DiskQueue.Proofs.FileNames
import DiskQueue.Proofs.Opening

namespace DiskQueue

/-!
The state of a file is told by its extension, so a change of state is a rename from one
extension to the other. The new path is not made from the old one, but from the directory and
the base name that is read off the old path. This comes to the same because of the rules for
the last dot of a name, whatever bytes stand before it: an extension `trn` is only found behind
something, so the base name is not empty, and it is all that stands before that dot.

A name without a base name, which is one with bytes that are no text before its extension, is
never that of a file that a queue writes.
-/

namespace FileNames

variable {directory : Path} {name base : Name}

/-! ### Names of records -/

/-- What stands before the extension of a record that can be claimed: some text, without
slashes. -/
structure IsBase (base : Name) : Prop where
  nonempty : base ≠ []
  slash : Path.slash ∉ base
  text : Utf8.isText base = true

/-- The path of an entry of a directory ends as that of a record, and the base name is read
off it. -/
structure Named (directory : Path) (name base : Name) : Prop where
  proper : name.IsProper
  listed : hasExtension (directory.join name) committed = true
  base : baseName? (directory.join name) = some base

/-- The extension of the path of an entry is that of its name. -/
theorem hasExtension_join (directory : Path) (h : name.IsProper) (extension : Name) :
    hasExtension (directory.join name) extension = hasExtension name extension := by
  rw [hasExtension, hasExtension, Path.extension?, Path.extension?,
    Path.fileName?_join directory h, Path.fileName?_of_isProper h]

theorem hasExtension_join_withExtension (directory : Path) {extension : Name}
    (h : extension ∈ extensions) (nonempty : base ≠ []) (slash : Path.slash ∉ base) :
    hasExtension (directory.join (withExtension base extension)) extension = true := by
  rw [hasExtension_join directory (isProper_withExtension h slash)]
  exact hasExtension_withExtension nonempty slash h

/-- The names from which a base name is read are the base names with the extension. -/
theorem named_iff : Named directory name base ↔ IsBase base ∧ name = asCommitted base := by
  constructor
  · rintro ⟨proper, listed, read⟩
    rw [hasExtension_join directory proper] at listed
    obtain ⟨own, nonempty, rfl, reads⟩ := eq_withExtension proper listed
    rw [reads] at read
    split at read
    · rename_i text
      cases read
      have slash : Path.slash ∉ base := fun mem => proper.slash (List.mem_append_left _ mem)
      exact ⟨⟨nonempty, slash, text⟩, rfl⟩
    · cases read
  · rintro ⟨⟨nonempty, slash, text⟩, rfl⟩
    exact ⟨isProper_withExtension committed_mem_extensions slash,
      hasExtension_join_withExtension directory committed_mem_extensions nonempty slash,
      baseName?_join directory nonempty slash committed_mem_extensions text⟩

/-- No record is in the state of a file that is being written or read. -/
theorem hasExtension_asTemporary (slash : Path.slash ∉ base) :
    hasExtension (asTemporary base) committed = false := by
  rw [Bool.eq_false_iff]
  intro listed
  obtain ⟨other, -, same, -⟩ :=
    eq_withExtension (isProper_withExtension temporary_mem_extensions slash) listed
  exact committed_ne_temporary other base same.symm

/-- Different base names in one directory have different temporary paths. -/
theorem temporaryPath_injective {a b : Name} (ha : Path.slash ∉ a) (hb : Path.slash ∉ b)
    (h : temporaryPath directory a = temporaryPath directory b) : a = b :=
  withExtension_injective (Path.join_injective
    (isProper_withExtension temporary_mem_extensions ha)
    (isProper_withExtension temporary_mem_extensions hb) h)

/-- A path leads to the entry of a directory with a name: the way starts where the way to the
directory starts, goes through the same names, and then by that name alone. -/
structure IsEntry (directory : Path) (name : Name) (path : Path) : Prop where
  origin : ∀ current, FileTree.origin current path = FileTree.origin current directory
  route : FileTree.route path = ⟨FileTree.steps directory ++ [name], false⟩
  fileName : Path.fileName? path = some name

theorem isEntry_join (directory : Path) (h : name.IsProper) :
    IsEntry directory name (directory.join name) :=
  ⟨Path.origin_join directory h, Path.route_join directory h, Path.fileName?_join directory h⟩

/-- The paths of a record before and after it is taken go with its base name: the one leads
back to the entry, the other to an entry beside it with the same base name, which is no
record. -/
structure InStep (directory : Path) (name base : Name) : Prop where
  nonempty : base ≠ []
  whole : name = base ++ Path.dot :: committed
  back : committedPath directory base = directory.join name
  beside : IsEntry directory (base ++ Path.dot :: temporary) (temporaryPath directory base)
  kept : baseName? (temporaryPath directory base) = some base
  hidden : hasExtension (temporaryPath directory base) committed = false

theorem Named.inStep (h : Named directory name base) : InStep directory name base := by
  obtain ⟨⟨nonempty, slash, text⟩, rfl⟩ := named_iff.mp h
  have proper := isProper_withExtension temporary_mem_extensions slash
  refine ⟨nonempty, rfl, rfl, isEntry_join directory proper, ?_, ?_⟩
  · exact baseName?_join directory nonempty slash temporary_mem_extensions text
  · rw [temporaryPath, hasExtension_join directory proper]
    exact hasExtension_asTemporary slash

/-- Different records of a directory are claimed by different base names, and have different
paths when they are taken. -/
theorem Named.apart {m n a b : Name} (hm : Named directory m a) (hn : Named directory n b)
    (different : m ≠ n) : a ≠ b ∧ temporaryPath directory a ≠ temporaryPath directory b := by
  obtain ⟨ha, rfl⟩ := named_iff.mp hm
  obtain ⟨hb, rfl⟩ := named_iff.mp hn
  have apart : a ≠ b := fun same => different (congrArg asCommitted same)
  exact ⟨apart, fun same => apart (temporaryPath_injective ha.slash hb.slash same)⟩

/-! ### Names of files that are being written -/

/-- A file that is being written becomes a record under a path that is the same up to the
extension. -/
structure Becomes (staged final : Path) : Prop where
  same : ∃ front, staged = withExtension front temporary ∧ final = withExtension front committed
  before : hasExtension staged temporary = true
  after : hasExtension final committed = true

theorem join_withExtension (directory : Path) {extension : Name} (h : extension ∈ extensions)
    (slash : Path.slash ∉ base) :
    directory.join (withExtension base extension)
      = withExtension (directory.join base) extension := by
  unfold Path.join
  rw [Path.isAbsolute_of_slash_notMem slash,
    Path.isAbsolute_of_slash_notMem (isProper_withExtension h slash).slash]
  simp only [Bool.false_eq_true, if_false]
  split <;> simp [withExtension]

theorem becomes_join (directory : Path) (nonempty : base ≠ []) (slash : Path.slash ∉ base) :
    Becomes (directory.join (asTemporary base)) (committedPath directory base) where
  same := ⟨directory.join base, join_withExtension directory temporary_mem_extensions slash,
    join_withExtension directory committed_mem_extensions slash⟩
  before := hasExtension_join_withExtension directory temporary_mem_extensions nonempty slash
  after := hasExtension_join_withExtension directory committed_mem_extensions nonempty slash

/-- A file that is being written has a base name, under which it becomes a record. -/
theorem exists_baseName?_staging (directory : Path) {token : ProcessToken} (h : token.IsValid)
    (millis : Int) (sequence : UInt64) :
    ∃ base, baseName? (directory.join (staging millis token sequence)) = some base ∧
      Becomes (directory.join (staging millis token sequence)) (committedPath directory base) :=
  ⟨_, baseName?_join_staging directory h,
    becomes_join directory (generated_ne_nil _ _ _) (slash_notMem_generated h)⟩

end FileNames

namespace Attempt

/-- Some operation has failed for a cause. -/
def FailedFor (made : List Attempt) (cause : IoError) : Prop := ∃ op, ⟨op, some cause⟩ ∈ made

theorem FailedFor.earlier {first : List Attempt} {cause : IoError} (h : FailedFor first cause)
    (last : List Attempt) : FailedFor (first ++ last) cause :=
  h.imp fun _ mem => List.mem_append_left last mem

theorem FailedFor.later {last : List Attempt} {cause : IoError} (h : FailedFor last cause)
    (first : List Attempt) : FailedFor (first ++ last) cause :=
  h.imp fun _ mem => List.mem_append_right first mem

end Attempt

namespace Queue

open Attempt (FailedFor)

/-! ### Storing a record

Nothing is assumed about the files here: any operation may fail, for any cause. A failure to
store a record always has such a cause, and is never one that the queue itself has made up. -/

/-- What making a temporary file comes to: a path with a generated name, or the failure of an
operation. -/
inductive Created (queue : Queue) (made : List Attempt) : Except IoError Path → Prop
  | file (millis : Int) (sequence : UInt64) :
      Created queue made
        (.ok (queue.directory.join (FileNames.staging millis queue.token sequence)))
  | failed (cause : IoError) (why : FailedFor made cause) : Created queue made (.error cause)

theorem endsWith_created (queue : Queue) (host : Host) {attempts : Nat} (some : attempts ≠ 0) :
    Program.EndsWith (fun made outcome _ => queue.Created made outcome.1)
      (queue.createStaging attempts) host := by
  induction attempts generalizing queue host with
  | zero => exact absurd rfl some
  | succ attempts ih =>
    apply Program.EndsWith.now
    intro timed _ _ _
    apply Program.EndsWith.anyFile
    intro reply after
    cases reply with
    | ok done => exact Program.EndsWith.done (.file _ _)
    | error e =>
      dsimp only
      split
      · rename_i again
        apply Program.EndsWith.log
        intro told _ _ _
        apply (ih { queue with sequence := queue.sequence + 1 } told again.2).mono
        rintro made ⟨outcome, _⟩ _ _ created
        cases created with
        | file millis sequence => exact .file millis sequence
        | failed cause why => exact .failed cause (why.later [_])
      · exact Program.EndsWith.done (.failed e ⟨_, List.mem_cons_self⟩)

/-- A temporary file has a base name. -/
theorem Created.named {queue : Queue} {made : List Attempt} {staged : Path}
    (h : queue.Created made (.ok staged)) (valid : queue.token.IsValid) :
    ∃ base, FileNames.baseName? staged = some base := by
  cases h with
  | file millis sequence => exact ⟨_, FileNames.baseName?_join_staging queue.directory valid⟩

/-- A failure is told with the cause for which an operation has failed. -/
def Blamed (made : List Attempt) (outcome : Except QueueError Path × Queue) : Prop :=
  ∀ e, outcome.1 = .error e →
    ∃ cause, (e = .staging cause ∨ e = .commit cause) ∧ FailedFor made cause

theorem endsWith_written (path : Path) (record : Bytes) (host : Host) :
    Program.EndsWith (fun made reply _ => ∀ cause, reply = .error cause → FailedFor made cause)
      (writeSynced path record) host := by
  apply Program.EndsWith.anyFile
  intro appended after
  cases appended with
  | error e => exact Program.EndsWith.done (by rintro _ ⟨⟩; exact ⟨_, List.mem_cons_self⟩)
  | ok done =>
    show Program.EndsWith _ (Program.sync path >>= pure) after
    apply Program.EndsWith.anyFile
    intro synced last
    apply Program.EndsWith.done
    rintro cause rfl
    exact ⟨.sync path, List.mem_cons_of_mem _ List.mem_cons_self⟩

theorem endsWith_published (queue : Queue) {staged : Path} {base : Name}
    (named : FileNames.baseName? staged = some base) (size : UInt64) (host : Host) :
    Program.EndsWith (fun made outcome _ => Blamed made outcome) (queue.publish staged size)
      host := by
  unfold publish
  simp only [named]
  apply Program.EndsWith.anyFile
  intro renamed after
  cases renamed with
  | error e =>
    exact Program.EndsWith.done
      (by rintro _ ⟨⟩; exact ⟨e, .inr rfl, ⟨_, List.mem_cons_self⟩⟩)
  | ok done =>
    apply Program.EndsWith.log
    intro told _ _ _
    exact Program.EndsWith.done (by rintro _ ⟨⟩)

/-- A record is not stored only if an operation has failed: the path of the temporary file has
a base name, so nothing else can be in the way. -/
theorem endsWith_stored (queue : Queue) (valid : queue.token.IsValid) (record : Bytes)
    (host : Host) :
    Program.EndsWith (fun made outcome _ => Blamed made outcome) (queue.commitRecord record)
      host := by
  apply (endsWith_created queue host (show maxStagingAttempts ≠ 0 by decide)).bind
  rintro made ⟨outcome, queue'⟩ after - created
  cases outcome with
  | error cause =>
    cases created with
    | failed _ why =>
      exact Program.EndsWith.done
        (by rintro _ ⟨⟩; exact ⟨cause, .inl rfl, why.earlier []⟩)
  | ok staged =>
    obtain ⟨base, named⟩ := created.named valid
    apply (endsWith_written staged record after).bind
    intro writing reply written _ why
    cases reply with
    | error cause =>
      exact Program.EndsWith.done
        (by rintro _ ⟨⟩; exact ⟨cause, .inl rfl, ((why cause rfl).earlier []).later made⟩)
    | ok done =>
      apply (endsWith_published queue' named (UInt64.ofNat record.length) written).mono
      intro moving outcome _ _ blamed e failed
      obtain ⟨cause, told, why⟩ := blamed e failed
      exact ⟨cause, told, (why.later writing).later made⟩

/-- What would be said of a temporary file without a base name. -/
def nameless : IoError := .other "staging file has no base name"

/-- It is said of a path without names. -/
example (queue : Queue) (size : UInt64) :
    queue.publish [] size = pure (.error (.staging nameless), queue) := rfl

/-- Nothing is said of a base name that is missing, unless the system says it. -/
theorem Blamed.ne_nameless {made : List Attempt} {outcome : Except QueueError Path × Queue}
    (h : Blamed made outcome) (spared : ∀ attempt ∈ made, attempt.failure ≠ some nameless) :
    outcome.1 ≠ .error (.staging nameless) := by
  intro failed
  obtain ⟨cause, told, op, mem⟩ := h _ failed
  rcases told with told | told
  · cases told
    exact spared _ mem rfl
  · cases told

/-! ### The files of a queue -/

/-- The path rules keep the names of a file in step. The names of a directory from which a base
name is read are those of some text and the extension; the paths made from that text are those of
the entry and of one beside it, and no two entries have one in common. A file that is being
written always has a base name, so where a record is not stored an operation has failed, and never
is a base name found missing. -/
theorem kept_in_step (directory : Path) :
    (∀ name base, FileNames.Named directory name base ↔
      FileNames.IsBase base ∧ name = FileNames.asCommitted base) ∧
    (∀ name base, FileNames.Named directory name base → FileNames.InStep directory name base) ∧
    (∀ m n a b, FileNames.Named directory m a → FileNames.Named directory n b → m ≠ n →
      a ≠ b ∧ FileNames.temporaryPath directory a ≠ FileNames.temporaryPath directory b) ∧
    (∀ (token : ProcessToken) (millis : Int) (sequence : UInt64), token.IsValid →
      ∃ base, FileNames.baseName? (directory.join (FileNames.staging millis token sequence))
          = some base ∧
        FileNames.Becomes (directory.join (FileNames.staging millis token sequence))
          (FileNames.committedPath directory base)) ∧
    ∀ (queue : Queue) (record : Bytes) (host : Host), queue.token.IsValid →
      (∀ staged, ((queue.createStaging maxStagingAttempts).run host).1.1 = .ok staged →
        ∃ base, FileNames.baseName? staged = some base) ∧
      Blamed ((queue.commitRecord record).attempts host)
        ((queue.commitRecord record).run host).1 ∧
      ((∀ attempt ∈ (queue.commitRecord record).attempts host, attempt.failure ≠ some nameless) →
        ((queue.commitRecord record).run host).1.1 ≠ .error (.staging nameless)) := by
  refine ⟨fun _ _ => FileNames.named_iff, fun _ _ named => named.inStep,
    fun _ _ _ _ hm hn different => hm.apart hn different,
    fun _ millis sequence valid =>
      FileNames.exists_baseName?_staging directory valid millis sequence,
    fun queue record host valid => ⟨?_, endsWith_stored queue valid record host,
      (endsWith_stored queue valid record host).ne_nameless⟩⟩
  intro staged made
  have created := endsWith_created queue host (show maxStagingAttempts ≠ 0 by decide)
  rw [Program.EndsWith, made] at created
  exact created.named valid

/-- Only the last dot counts, and one in front of a name may be part of the base name. The system
has no room left when the record is made to last. -/
theorem kept_in_step_of_dots :
    let directory : Path := Utf8.encode "/s/./"
    let named := FileNames.Named directory
    let token : ProcessToken := ⟨"abcdefgh"⟩
    let queue : Queue := .ofDefaults directory token 0
    let full (op : FileOp) : Option IoError :=
      match op with
      | .sync _ => some (.os 28)
      | _ => none
    let tree := FileTree.empty.insert [Utf8.encode "s"] .directory
    let host := { Host.quiet tree [] (-1) (.start 0) with fault := fun _ => full }
    let staged := directory.join (FileNames.staging (-1) token 0)
    named (Utf8.encode "..trn") (Utf8.encode ".") ∧
      FileNames.InStep directory (Utf8.encode "..trn") (Utf8.encode ".") ∧
      named (Utf8.encode "a.trn.trn") (Utf8.encode "a.trn") ∧
      FileNames.temporaryPath directory (Utf8.encode ".")
        ≠ FileNames.temporaryPath directory (Utf8.encode "a.trn") ∧
      token.IsValid ∧
      (∃ base, FileNames.baseName? staged = some base ∧
        FileNames.Becomes staged (FileNames.committedPath directory base)) ∧
      ((queue.createStaging maxStagingAttempts).run host).1.1 = .ok staged ∧
      ((queue.commitRecord [7]).run host).1.1 = .error (.staging (.os 28)) ∧
      FailedFor ((queue.commitRecord [7]).attempts host) (.os 28) ∧
      (∀ attempt ∈ (queue.commitRecord [7]).attempts host, attempt.failure ≠ some nameless) ∧
      ((queue.commitRecord [7]).run host).1.1 ≠ .error (.staging nameless) := by
  intro directory named token queue full tree host staged
  obtain ⟨names, states, apart, writing, storing⟩ := kept_in_step directory
  have dot : named (Utf8.encode "..trn") (Utf8.encode ".") :=
    (names _ _).mpr ⟨⟨by decide +kernel, by decide +kernel, by decide +kernel⟩, by decide +kernel⟩
  have twice : named (Utf8.encode "a.trn.trn") (Utf8.encode "a.trn") :=
    (names _ _).mpr ⟨⟨by decide +kernel, by decide +kernel, by decide +kernel⟩, by decide +kernel⟩
  have valid : token.IsValid := by decide +kernel
  have stopped : ((queue.commitRecord [7]).run host).1.1 = .error (.staging (.os 28)) := by
    decide +kernel
  have made : ((queue.createStaging maxStagingAttempts).run host).1.1 = .ok staged := by
    decide +kernel
  have spared : ∀ attempt ∈ (queue.commitRecord [7]).attempts host,
      attempt.failure ≠ some nameless := by decide +kernel
  obtain ⟨-, blamed, unsaid⟩ := storing queue [7] host valid
  have why : FailedFor ((queue.commitRecord [7]).attempts host) (.os 28) := by
    obtain ⟨cause, told, why⟩ := blamed _ stopped
    rcases told with told | told
    · cases told
      exact why
    · cases told
  exact ⟨dot, states _ _ dot, twice, (apart _ _ _ _ dot twice (by decide +kernel)).2, valid,
    writing token (-1) 0 valid, made, stopped, why, spared, unsaid spared⟩

/-- Bytes that are no text before the extension give no base name. -/
example : FileNames.baseName? (FileNames.committedPath [] [0x61, 0xFF]) = none := by decide +kernel

end Queue
end DiskQueue
