/-
Module: DiskQueue.Proofs.Payloads
Purpose: What draining leaves of the files, and where the payload of a record that it has removed
  is found.
Trusted boundary: none
Main exports:
  Command.Removed, Command.Trace.gone, Command.Trace.frame, Command.Trace.payload,
  Command.Touched, Command.Accounted, Command.payloads_accounted
-/
import DiskQueue.Proofs.Turns

namespace DiskQueue

open FileTree (Grows)
open FileNames (asCommitted asTemporary)

/-!
A record is removed before its payload is written, and the payload takes the name of its attempt,
whatever has that name. So there are files that draining may change: those of the payloads, and
the records that it removes. Within one run no payload takes the name of another one, so what has
been written is there at the end. What could not be written is lost, and is counted.
-/

namespace Command

variable {output : Option Path} {folder target : Key} {directory : Path} {undisturbed : Prop}
  {attempt : Nat} {before mid after last : FileTree} {sought : Option Name}
  {answer : Except QueueError (Option Transmission)} {written : Option (Except IoError Unit)}
  {run : List Turn} {base : Name}

/-! ### Files that change -/

/-- A record has been removed. -/
def Removed (folder : Key) (base : Name) (before after : FileTree) : Prop :=
  (∃ content modified,
    before.lookup (folder ++ [asCommitted base]) = some (.file content modified)) ∧
    after.lookup (folder ++ [asCommitted base]) = none

/-- What is no record stays none. -/
theorem Trace.none_after
    (h : Trace folder directory undisturbed output target attempt before run last)
    (none : before.lookup (folder ++ [asCommitted base]) = none) :
    last.lookup (folder ++ [asCommitted base]) = .none := by
  induction h with
  | done attempt tree => exact none
  | turn attempted delivered ends _ ih =>
    apply ih
    rw [delivered.lookup_extension base FileNames.committed_mem_extensions]
    rcases attempted.record base with same | ⟨-, content, -, gone, -⟩
    · rw [same, none]
    · exact gone

/-- A record that has been there is there no longer only if a turn has gone for it and was
answered what it is, or that it could not be read. -/
theorem Trace.gone (h : Trace folder directory undisturbed output target attempt before run last)
    {content : Bytes} {modified : Int}
    (there : before.lookup (folder ++ [asCommitted base]) = some (.file content modified))
    (gone : last.lookup (folder ++ [asCommitted base]) = none) :
    ∃ (index : Nat) (turn : Turn), run[index]? = some turn ∧ turn.sought = some base ∧
      (turn.answer = (Stored.decoded content).map some ∨ ∃ e, turn.answer = .error e) := by
  induction h with
  | done attempt tree => cases gone.symm.trans there
  | @turn attempt before mid after last first rest attempted delivered ends _ ih =>
    rcases attempted.record base with same | ⟨sought, bytes, ⟨since, found⟩, -, answered⟩
    · rw [← same, ← delivered.lookup_extension base FileNames.committed_mem_extensions] at there
      obtain ⟨index, turn, found, sought, answered⟩ := ih there gone
      exact ⟨index + 1, turn, found, sought, answered⟩
    · cases there.symm.trans found
      exact ⟨0, first, rfl, sought, answered⟩

/-- Where a record is gone for, an entry stays as it is unless it is a record that is removed, or
the file that it is read from. -/
theorem Attempted.lookup_cases
    (h : Attempted folder directory undisturbed before mid sought answer) (key : Key) :
    mid.lookup key = before.lookup key ∨ ∃ base, Removed folder base before mid ∧
      (key = folder ++ [asCommitted base] ∨ key = folder ++ [asTemporary base]) := by
  cases h with
  | unlisted e same => exact .inl (by rw [same])
  | nothing same => exact .inl (by rw [same])
  | failed base e same => exact .inl (by rw [same])
  | took base content _ named took =>
    obtain ⟨modified, there⟩ := took.there
    by_cases own : key = folder ++ [asCommitted base] ∨ key = folder ++ [asTemporary base]
    · exact .inr ⟨base, ⟨⟨content, modified, there⟩, took.lookup_committed⟩, own⟩
    · obtain ⟨committed, temporary⟩ := not_or.mp own
      exact .inl (took.lookup_key committed temporary)

/-- Where an answer is delivered, an entry stays as it is unless it is the file of the payload. -/
theorem Delivered.lookup_cases (h : Delivered output target attempt mid after answer written)
    (key : Key) : after.lookup key = mid.lookup key ∨
      (∃ transmission, answer = .ok (some transmission)) ∧
        key = target ++ [payloadName attempt] := by
  cases h with
  | nothing _ same => exact .inl (by rw [same])
  | payload transmission _ _ wrote =>
    by_cases own : key = target ++ [payloadName attempt]
    · exact .inr ⟨⟨transmission, rfl⟩, own⟩
    · exact .inl (wrote.lookup_other own)

/-- An entry stays as it is unless it is a record that is removed, or the file that such a record
is read from, or the file of a payload. -/
theorem Trace.frame (h : Trace folder directory undisturbed output target attempt before run last)
    (key : Key) :
    last.lookup key = before.lookup key ∨
      (∃ base, Removed folder base before last ∧
        (key = folder ++ [asCommitted base] ∨ key = folder ++ [asTemporary base])) ∨
      ∃ (index : Nat) (turn : Turn) (transmission : Transmission), run[index]? = some turn ∧
        turn.answer = .ok (some transmission) ∧
        key = target ++ [payloadName (attempt + index)] := by
  induction h with
  | done attempt tree => exact .inl rfl
  | @turn attempt before mid after last first rest attempted delivered ends others ih =>
    have records : ∀ base, after.lookup (folder ++ [asCommitted base])
        = mid.lookup (folder ++ [asCommitted base]) :=
      fun base => delivered.lookup_extension base FileNames.committed_mem_extensions
    rcases ih with same | ⟨base, ⟨⟨content, modified, there⟩, gone⟩, own⟩ | later
    · rcases delivered.lookup_cases key with kept | ⟨⟨transmission, answered⟩, own⟩
      · rcases attempted.lookup_cases key with kept' | ⟨base, ⟨there, gone⟩, own⟩
        · exact .inl (same.trans (kept.trans kept'))
        · rw [← records base] at gone
          exact .inr (.inl ⟨base, ⟨there, others.none_after gone⟩, own⟩)
      · exact .inr (.inr ⟨0, first, transmission, rfl, answered, own⟩)
    · refine .inr (.inl ⟨base, ⟨?_, gone⟩, own⟩)
      rw [records base] at there
      rcases attempted.record base with same | ⟨-, bytes, -, lost, -⟩
      · rw [same] at there
        exact ⟨content, modified, there⟩
      · cases lost.symm.trans there
    · obtain ⟨index, turn, transmission, found, answered, rfl⟩ := later
      refine .inr (.inr ⟨index + 1, turn, transmission, found, answered, ?_⟩)
      rw [Nat.add_assoc, Nat.add_comm 1 index]

/-! ### Files of payloads -/

/-- No turn touches the file of an earlier payload. -/
theorem Trace.lookup_earlier
    (h : Trace folder directory undisturbed output target attempt before run last) {number : Nat}
    (earlier : number < attempt) :
    last.lookup (target ++ [payloadName number])
      = before.lookup (target ++ [payloadName number]) := by
  induction h with
  | done attempt tree => rfl
  | turn attempted delivered ends _ ih =>
    rw [ih (Nat.lt_succ_of_lt earlier), delivered.lookup_other, attempted.lookup_payload]
    intro same
    have names := (List.append_inj' same rfl).2
    exact absurd (payloadName_injective (List.cons.inj names).1) (Nat.ne_of_lt earlier)

/-- What has been written is there at the end. -/
theorem Trace.payload
    (h : Trace folder directory undisturbed output target attempt before run last)
    {index : Nat} {turn : Turn} {transmission : Transmission} (found : run[index]? = some turn)
    (answered : turn.answer = .ok (some transmission)) (written : turn.written = some (.ok ())) :
    ∃ modified, last.lookup (target ++ [payloadName (attempt + index)])
      = some (.file transmission.content modified) := by
  induction h generalizing index with
  | done attempt tree => cases found
  | @turn attempt before mid after last first rest attempted delivered ends others ih =>
    cases index with
    | zero =>
      cases found
      rw [answered, written] at delivered
      cases delivered with
      | payload _ _ asked wrote =>
        cases wrote with
        | written plain modified sets =>
          refine ⟨modified, ?_⟩
          rw [Nat.add_zero, others.lookup_earlier (Nat.lt_succ_self attempt), sets.lookup_self]
    | succ index =>
      obtain ⟨modified, there⟩ := ih found
      refine ⟨modified, ?_⟩
      rwa [Nat.add_comm index 1, ← Nat.add_assoc]

/-- With an output directory the payload of a transmission is written, or the turn counts as a
failure. -/
theorem Trace.written_or_failed
    (h : Trace folder directory undisturbed output target attempt before run last)
    (asked : output ≠ none) {turn : Turn} (mem : turn ∈ run) {transmission : Transmission}
    (answered : turn.answer = .ok (some transmission)) :
    turn.written = some (.ok ()) ∨ turn.failed = true ∧ ∃ e, turn.written = some (.error e) := by
  induction h with
  | done attempt tree => cases mem
  | @turn attempt before mid after last first rest attempted delivered ends _ ih =>
    rcases List.mem_cons.mp mem with rfl | mem
    · obtain ⟨sought, answer, written⟩ := turn
      dsimp only at answered delivered
      subst answered
      cases delivered with
      | nothing _ same unasked => exact absurd (unasked transmission rfl) asked
      | payload _ result _ wrote =>
        cases result with
        | ok done => exact .inl rfl
        | error e => exact .inr ⟨rfl, e, rfl⟩
    · exact ih mem

theorem mem_entries {index : Nat} {turn : Turn} {entry : Drained} (found : run[index]? = some turn)
    (listed : turn.listed? output index = some entry) : entry ∈ entries output 0 run := by
  refine List.mem_filterMap.mpr ⟨(turn, index), ?_, listed⟩
  exact List.mem_zipIdx_iff_getElem?.mpr found

/-! ### Draining with a new queue -/

/-- What may have become of an entry when a queue has been drained to a directory. -/
inductive Touched (folder target : Key) (run : List Turn) (before after : FileTree) (key : Key) :
    Prop
  | kept (same : after.lookup key = before.lookup key)
  | added (free : before.lookup key = none) (directory : after.lookup key = some .directory)
  | removed (base : Name) (removed : Removed folder base before after)
      (own : key = folder ++ [asCommitted base] ∨ key = folder ++ [asTemporary base])
  | payload (index : Nat) (turn : Turn) (transmission : Transmission)
      (found : run[index]? = some turn) (answered : turn.answer = .ok (some transmission))
      (own : key = target ++ [payloadName index])

/-- What has become of a payload whose record has been removed. -/
inductive Accounted (path : Path) (target : Key) (run : List Turn) (after : FileTree) (base : Name)
    (transmission : Transmission) : Prop
  | written (index : Nat) (turn : Turn) (found : run[index]? = some turn)
      (sought : turn.sought = some base)
      (file : ∃ modified, after.lookup (target ++ [payloadName index])
        = some (.file transmission.content modified))
      (listed : ⟨transmission.length, transmission.contentType, transmission.contentEncoding,
        some (payloadPath path index)⟩ ∈ entries (some path) 0 run)
  | failed (turn : Turn) (mem : turn ∈ run) (sought : turn.sought = some base)
      (counts : turn.failed = true)
      (unnamed : ∀ index entry, turn.listed? (some path) index = some entry →
        entry.writtenTo = none)

theorem Trace.accounted {path : Path}
    (h : Trace folder directory undisturbed (some path) target 0 before run last)
    {content : Bytes} {modified : Int} {transmission : Transmission}
    (there : before.lookup (folder ++ [asCommitted base]) = some (.file content modified))
    (gone : last.lookup (folder ++ [asCommitted base]) = none)
    (decodes : Stored.decoded content = .ok transmission) :
    Accounted path target run last base transmission := by
  obtain ⟨index, turn, found, sought, answered⟩ := h.gone there gone
  have mem := List.mem_of_getElem? found
  rcases answered with answered | ⟨e, answered⟩
  · rw [decodes] at answered
    rcases h.written_or_failed (by simp) mem answered with written | ⟨failed, e, written⟩
    · obtain ⟨since, file⟩ := h.payload found answered written
      rw [Nat.zero_add] at file
      refine .written index turn found sought ⟨since, file⟩ (mem_entries found ?_)
      rw [Turn.listed?, answered, written]
      rfl
    · refine .failed turn mem sought failed ?_
      intro number entry listed
      rw [Turn.listed?, answered, written] at listed
      cases listed
      rfl
  · refine .failed turn mem sought (by rw [Turn.failed, answered]) ?_
    intro number entry listed
    rw [Turn.listed?, answered] at listed
    cases listed

section Opened

variable {options : Queue.Options} {fallback path : Path} {token : ProcessToken}
  {start ready : Host} {queue : Queue}

/-- Whatever fails, draining to a directory without links in the place of payloads touches nothing
but records that it removes, directories that it adds, and the files of payloads. The payload of
every record that has been removed and can be decoded is found in the file that the report names,
or is counted as a failure and no file is named for it. If there is no directory, only those above
it may have been added. -/
theorem payloads_accounted
    (opened : (Queue.openWith options fallback token).run start = (.ok queue, ready))
    (offers : ready.Offers folder) (reaches : ready.Reaches folder queue.directory) (limit : Nat) :
    let prepared := (Program.ensureDirectories path).run ready
    let ran := (runDrain queue (some path) limit).run ready
    (∀ e, prepared.1 = .error e → ran.1.code = ExitCode.badConfiguration.number ∧
      ran.1.output matches .nothing ∧ Grows ready.tree ran.2.tree) ∧
    (prepared.1 = .ok () → prepared.2.Receives target path →
      let run := (turns (some path) 0 limit queue prepared.2).1
      (∃ time tracked,
        ran.1 = drainReport time (entries (some path) 0 run) (failures run) tracked) ∧
      (∀ key, Touched folder target run ready.tree ran.2.tree key) ∧
      ∀ base content modified transmission,
        ready.tree.lookup (folder ++ [asCommitted base]) = some (.file content modified) →
        ran.2.tree.lookup (folder ++ [asCommitted base]) = none →
        Stored.decoded content = .ok transmission →
        Accounted path target run ran.2.tree base transmission) := by
  intro prepared ran
  have grown := Program.grows_ensureDirectories offers.wellFormed offers.current path
  constructor
  · intro e unmade
    obtain ⟨code, output, same⟩ :=
      run_runDrain_of_unmade (Prod.ext unmade rfl : prepared = (.error e, prepared.2)) queue limit
    exact ⟨code, output, same ▸ grown⟩
  · intro made receives run
    have ready : Prepared (some path) ready prepared.2 := Prod.ext made rfl
    have trace := (scene_of_opened opened offers reaches ready
      fun _ given => Option.some.inj given ▸ receives).trace 0 limit
    obtain ⟨time, all⟩ := run_drainAll queue (some path) limit prepared.2
    have ended : ran = _ := (run_runDrain ready queue limit).trans all
    rw [ended]
    refine ⟨⟨time, _, rfl⟩, ?_, ?_⟩
    · intro key
      rcases trace.frame key with same | ⟨base, ⟨⟨content, modified, there⟩, gone⟩, own⟩ | payload
      · rcases grown.lookup key with before | ⟨free, directory⟩
        · exact .kept (same.trans before)
        · exact .added free (same.trans directory)
      · exact .removed base ⟨⟨content, modified, grown.file_iff.mp there⟩, gone⟩ own
      · obtain ⟨index, turn, transmission, found, answered, own⟩ := payload
        exact .payload index turn transmission found answered (Nat.zero_add index ▸ own)
    · intro base content modified transmission there gone decodes
      exact trace.accounted (grown.kept there) gone decodes

/-- Three records, one of them empty, are drained to a directory with a file of its own and a
payload of an earlier run. The two payloads are accounted for, the older one is overwritten, and
the other file stays. -/
theorem payloads_accounted_beside_older :
    let records := FileTree.empty.insertAll [] [(asCommitted [0x61], .file Queue.smallRecord 0),
      (asCommitted [0x62], .file [] 0),
      (asCommitted [0x63], .file (Queue.smallRecord.dropLast ++ [0x42]) 0), ([0x6F], .directory)]
    let tree := records.insertAll [[0x6F]]
      [([0x6B], .file [0x78] 0), (payloadName 0, .file [0x79] 0)]
    let start := Host.quiet tree [] 1700000000123 (.start 0)
    let path : Path := [Path.slash, 0x6F]
    ∃ queue ready made,
      (Queue.openWith .default [Path.slash] ⟨"abcdefgh"⟩).run start = (.ok queue, ready) ∧
      (Program.ensureDirectories path).run ready = (.ok (), made) ∧ made.Receives [[0x6F]] path ∧
      let run := (turns (some path) 0 3 queue made).1
      let last := ((runDrain queue (some path) 3).run ready).2.tree
      (∀ key, Touched [] [[0x6F]] run ready.tree last key) ∧
        Accounted path [[0x6F]] run last [0x61] (.ofBytes [0x41]) ∧
        Accounted path [[0x6F]] run last [0x63] (.ofBytes [0x42]) ∧
        last.children [[0x6F]] = [(payloadName 2, .file [0x42] 1700000000123),
          (payloadName 0, .file [0x41] 1700000000123), ([0x6B], .file [0x78] 0)] := by
  intro records tree start path
  let queue : Queue := .ofDefaults [Path.slash] ⟨"abcdefgh"⟩ 74
  let ready := ((Queue.openWith .default [Path.slash] ⟨"abcdefgh"⟩).run start).2
  let made := ((Program.ensureDirectories path).run ready).2
  have opened : (Queue.openWith .default [Path.slash] ⟨"abcdefgh"⟩).run start
      = (.ok queue, ready) := Program.run_eq (by decide +kernel)
  have wf : records.WellFormed :=
    (Host.offers_quiet 0 (.start 0)).wellFormed.insertAll rfl (by decide +kernel)
      (by decide +kernel) (by decide +kernel)
  have wf' : tree.WellFormed :=
    wf.insertAll (by decide +kernel) (by decide +kernel) (by decide +kernel) (by decide +kernel)
  have begins : start.Offers [] := ⟨wf', rfl, rfl⟩
  obtain ⟨offers, reaches⟩ := begins.of_opened opened (by decide +kernel) (by decide)
    (FileTree.isPlain_of_free (by decide +kernel))
  have prepared : (Program.ensureDirectories path).run ready = (.ok (), made) :=
    Program.run_eq (by decide +kernel)
  have grows := Program.grows_ensureDirectories offers.wellFormed offers.current path
  have offers' : made.Offers [[0x6F]] :=
    Host.Offers.grow grows ⟨offers.wellFormed, offers.current, by decide +kernel⟩
      (Program.later_run _ ready)
  have receives : made.Receives [[0x6F]] path := by
    refine ⟨offers'.serves (by decide +kernel), ?_⟩
    intro _ attempt destination there
    have files : ∀ child ∈ made.tree.children [[0x6F]], child.2.kind = .file := by decide +kernel
    cases files _ (FileTree.mem_children_iff.mpr there)
  obtain ⟨-, touched, accounted⟩ := (payloads_accounted opened offers reaches 3).2
    (congrArg Prod.fst prepared) receives
  -- The kernel does not sort, so the batch is given to it.
  let names := [[0x61], [0x62], [0x63]].map asCommitted
  have found : ((Stored.paths queue.directory FileNames.committed).run made).1
      = .ok (names.reverse.map queue.directory.join) := by decide +kernel
  have perm := (names.reverse_perm).map queue.directory.join
  have refill := queue.candidates.run_refill_of_perm found perm (by decide +kernel)
  obtain ⟨time, all⟩ := run_drainAll queue (some path) 3 made
  have drained : ((runDrain queue (some path) 3).run ready).2.tree
      = (turns (some path) 0 3 queue made).2.2.counted.tree :=
    congrArg (fun ran => ran.2.tree)
      ((run_runDrain (show Prepared (some path) ready made from prepared) queue 3).trans all)
  have ended := drained.trans (congrArg (fun ran => ran.2.2.counted.tree)
    (turns_of_refill rfl refill (by decide)))
  have gone : ∀ base ∈ [[0x61], [0x63]], ((runDrain queue (some path) 3).run ready).2.tree.lookup
      ([] ++ [asCommitted base]) = none := by
    rw [ended]
    decide +kernel
  refine ⟨queue, ready, made, opened, prepared, receives, touched, ?_, ?_, ?_⟩
  · exact accounted [0x61] Queue.smallRecord 0 _ (by decide +kernel) (gone _ (by decide))
      (by decide +kernel)
  · exact accounted [0x63] (Queue.smallRecord.dropLast ++ [0x42]) 0 _ (by decide +kernel)
      (gone _ (by decide)) (by decide +kernel)
  · rw [ended]
    decide +kernel

end Opened

/-! ### Payloads and files that are lost -/

/-- A record in the root, and a directory `/o`. -/
def recordAndFolder : FileTree := (Queue.recordAlone [0x61]).insert ([] ++ [[0x6F]]) .directory

/-- There is a file `k` in the directory, and an entry under the name of the first payload. -/
def occupied (node : Node) : FileTree :=
  (recordAndFolder.insert ([[0x6F]] ++ [[0x6B]]) (.file [0x78] 0)).insert
    ([[0x6F]] ++ [payloadName 0]) node

theorem wellFormed_occupied (node : Node) : (occupied node).WellFormed := by
  have alone := Queue.wellFormed_recordAlone (show Path.slash ∉ [0x61] by decide)
  have directory : recordAndFolder.WellFormed :=
    alone.insert (by decide) rfl (by decide +kernel) _
  have kept : (recordAndFolder.insert ([[0x6F]] ++ [[0x6B]]) (.file [0x78] 0)).WellFormed :=
    directory.insert (by decide) (by decide +kernel) (by decide +kernel) _
  exact kept.insert (isProper_payloadName 0) (by decide +kernel) (by decide +kernel) node

/-- A queue in the root is drained to `/o`, one record at most. -/
def DrainsTo (tree last : FileTree) : Prop :=
  let start := Host.quiet tree [] 1700000000123 (.start 0)
  start.Offers [] ∧ start.Reaches [] [Path.slash] ∧ ∃ queue ready,
    (Queue.openWith .default [Path.slash] ⟨"abcdefgh"⟩).run start = (.ok queue, ready) ∧
    ((runDrain queue (some [Path.slash, 0x6F]) 1).run ready).2.tree = last

/-- The tree after draining. -/
def drainedTo (node : Node) : FileTree :=
  ((runDrain (.ofDefaults [Path.slash] ⟨"abcdefgh"⟩ 37) (some [Path.slash, 0x6F]) 1).run
    ((Queue.openWith .default [Path.slash] ⟨"abcdefgh"⟩).run
      (Host.quiet (occupied node) [] 1700000000123 (.start 0))).2).2.tree

theorem drainsTo_drainedTo {node : Node}
    (opened : ((Queue.openWith .default [Path.slash] ⟨"abcdefgh"⟩).run
      (Host.quiet (occupied node) [] 1700000000123 (.start 0))).1
        = .ok (.ofDefaults [Path.slash] ⟨"abcdefgh"⟩ 37)) :
    DrainsTo (occupied node) (drainedTo node) :=
  ⟨⟨wellFormed_occupied node, rfl, rfl⟩, rfl, _, _, Program.run_eq opened, rfl⟩

/-- The name of a payload may belong to a file, which is overwritten, or to a link to one. If it
belongs to a directory, the payload is lost: the record is gone, and no file has its bytes. -/
theorem files_and_payloads_lost :
    let entry := fun (name : Name) => [[0x6F]] ++ [name]
    (∃ last, DrainsTo (occupied (.file [0x78] 0)) last ∧
      (occupied (.file [0x78] 0)).lookup (entry (payloadName 0)) = some (.file [0x78] 0) ∧
      ∃ modified, last.lookup (entry (payloadName 0)) = some (.file [0x41] modified)) ∧
    (∃ last, DrainsTo (occupied (.link [0x6B])) last ∧
      (occupied (.link [0x6B])).lookup (entry [0x6B]) = some (.file [0x78] 0) ∧
      ∃ modified, last.lookup (entry [0x6B]) = some (.file [0x41] modified)) ∧
    ∃ last, DrainsTo (occupied .directory) last ∧
      (occupied .directory).lookup ([] ++ [asCommitted [0x61]])
        = some (.file Queue.smallRecord 0) ∧
      last.lookup ([] ++ [asCommitted [0x61]]) = none ∧
      Stored.decoded Queue.smallRecord = .ok (.ofBytes [0x41]) ∧
      ∀ name modified, last.lookup (entry name) ≠ some (.file [0x41] modified) := by
  intro entry
  refine ⟨⟨_, drainsTo_drainedTo (by decide +kernel), by decide +kernel, 1700000000123,
    by decide +kernel⟩, ⟨_, drainsTo_drainedTo (by decide +kernel), by decide +kernel,
    1700000000123, by decide +kernel⟩, _, drainsTo_drainedTo (by decide +kernel),
    by decide +kernel, by decide +kernel, by decide +kernel, ?_⟩
  intro name modified there
  have files : ∀ child ∈ (drainedTo .directory).children [[0x6F]],
      child.2 = .directory ∨ child.2 = .file [0x78] 0 := by decide +kernel
  rcases files _ (FileTree.mem_children_iff.mpr there) with directory | kept
  · cases directory
  · exact absurd (Node.file.inj kept).1 (by decide)

end Command
end DiskQueue
