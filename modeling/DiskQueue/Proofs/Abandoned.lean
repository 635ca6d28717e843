/-
Module: DiskQueue.Proofs.Abandoned
Purpose: A sweep removes the abandoned files and tells of exactly those; a queue finds its
  own mark in the names that it makes itself, and in no other generated name.
Trusted boundary: none
Main exports:
  FileNames.contains_mark_generated_iff, Queue.sweeps_abandoned
-/
import DiskQueue.Proofs.Fleet

namespace DiskQueue

open FileNames (asTemporary)

/-!
Whose file a name is, is not read off the place of the token in it. The queue looks for its
token between two hyphens anywhere in the base name. No time can be mistaken for a token, since
it has more digits than a token has characters; there is nothing between a hyphen and a minus
sign; and no hyphen follows the number at the end.
-/

namespace FileNames

variable {part name text field rest : Name}

/-! ### Text between two hyphens -/

theorem contains_iff_occurs : contains part name = true ↔ part <:+: name := by
  induction name with
  | nil => simp [contains]
  | cons b rest ih =>
    rw [contains, Bool.or_eq_true, ih, List.isPrefixOf_iff_prefix, List.infix_cons_iff]

/-- What starts with a hyphen does not start in a field without one. -/
theorem infix_append_iff_of_hyphenless (hyphenless : hyphen ∉ field) :
    hyphen :: part <:+: field ++ rest ↔ hyphen :: part <:+: rest := by
  induction field with
  | nil => rfl
  | cons b field ih =>
    rw [List.mem_cons, not_or] at hyphenless
    rw [List.cons_append, List.infix_cons_iff, ih hyphenless.2, List.cons_prefix_cons]
    simp only [hyphenless.1, false_and, false_or]

/-- Text between two hyphens is the first field, or it stands further behind. -/
theorem between_cons_iff (hText : hyphen ∉ text) (hField : hyphen ∉ field) :
    hyphen :: (text ++ [hyphen]) <:+: hyphen :: (field ++ hyphen :: rest) ↔
      text = field ∨ hyphen :: (text ++ [hyphen]) <:+: hyphen :: rest := by
  rw [List.infix_cons_iff, infix_append_iff_of_hyphenless hField, List.cons_prefix_cons]
  apply or_congr_left
  constructor
  · rintro ⟨-, behind, whole⟩
    rw [List.append_assoc] at whole
    exact (append_cons_inj_of_first hText hField whole).1
  · rintro rfl
    exact ⟨rfl, rest, by simp⟩

/-- There is no text between two hyphens where no second one is. -/
theorem not_between_of_hyphenless (hyphenless : hyphen ∉ field) :
    ¬ hyphen :: (text ++ [hyphen]) <:+: hyphen :: field := by
  rw [List.infix_cons_iff, List.cons_prefix_cons]
  rintro (⟨-, first⟩ | later)
  · exact hyphenless (first.subset (by simp))
  · exact hyphenless (later.subset (by simp))

/-! ### The mark in a generated name -/

theorem hyphen_notMem_zeroPad (width n : Nat) : hyphen ∉ Decimal.zeroPad width (Decimal.digits n) :=
  fun mem => absurd (isDigit_of_mem_zeroPad mem) (by decide)

theorem hyphen_notMem_bytes {token : ProcessToken} (valid : token.IsValid) :
    hyphen ∉ token.bytes :=
  fun mem => (ProcessToken.mem_bytes valid mem).2.2.2.2 rfl

/-- A number that is padded to more places than a token has is no token. -/
theorem bytes_ne_zeroPad {token : ProcessToken} (valid : token.IsValid) {width : Nat}
    (wide : 8 < width) (n : Nat) : token.bytes ≠ Decimal.zeroPad width (Decimal.digits n) := by
  intro same
  have length := congrArg List.length same
  rw [ProcessToken.length_bytes valid, Decimal.zeroPad, List.length_append,
    List.length_replicate] at length
  omega

/-- Behind the time there is one token. -/
theorem mark_behind_time_iff {token other : ProcessToken} (valid : token.IsValid)
    (valid' : other.IsValid) {width : Nat} (wide : 8 < width) (n sequence : Nat) :
    hyphen :: (token.bytes ++ [hyphen])
        <:+: hyphen :: (Decimal.zeroPad width (Decimal.digits n)
          ++ hyphen :: (other.bytes ++ hyphen :: Decimal.padded 6 sequence)) ↔
      other = token := by
  have own := hyphen_notMem_bytes valid
  rw [between_cons_iff own (hyphen_notMem_zeroPad width n),
    between_cons_iff own (hyphen_notMem_bytes valid'), padded_natCast]
  simp only [bytes_ne_zeroPad valid wide n, not_between_of_hyphenless (hyphen_notMem_zeroPad _ _),
    false_or, or_false]
  exact ⟨fun same => (ProcessToken.bytes_injective same).symm, fun same => same ▸ rfl⟩

/-- A generated name carries the mark of the token that it was made with, and no other one. -/
theorem contains_mark_generated_iff {token other : ProcessToken} (valid : token.IsValid)
    (valid' : other.IsValid) (millis : Int) (sequence : UInt64) :
    contains (mark token) (generated millis other sequence) = true ↔ other = token := by
  have fields : generated millis other sequence = Utf8.encode "Transmission"
      ++ hyphen :: (Decimal.padded 13 millis
        ++ hyphen :: (other.bytes ++ hyphen :: Decimal.padded 6 sequence.toNat)) := by
    simp [generated]
  rw [contains_iff_occurs, fields, mark, List.cons_append,
    infix_append_iff_of_hyphenless (show hyphen ∉ Utf8.encode "Transmission" by decide +kernel)]
  unfold Decimal.padded
  split
  · -- The minus sign is a hyphen, and nothing stands between it and the one before.
    have filled : token.bytes ≠ [] := by
      intro empty
      have length := ProcessToken.length_bytes valid
      rw [empty] at length
      cases length
    refine (between_cons_iff (hyphen_notMem_bytes valid) List.not_mem_nil).trans ?_
    simp only [filled, false_or]
    exact mark_behind_time_iff valid valid' (by decide) _ _
  · exact mark_behind_time_iff valid valid' (by decide) _ _

/-- What is no token may be found in names that were made with one: between the first hyphen and
a minus sign there is nothing. -/
example : contains (mark ⟨""⟩) (generated (-1) ⟨"abcdefgh"⟩ 0) = true := by decide +kernel

end FileNames

/-- A file with a temporary name can stand in the root. -/
theorem FileTree.WellFormed.insert_temporary {tree : FileTree} {base : Name}
    (wf : tree.WellFormed) (slash : Path.slash ∉ base)
    (free : tree.lookup ([] ++ [asTemporary base]) ≠ some .directory) (content : Bytes)
    (modified : Int) :
    (tree.insert ([] ++ [asTemporary base]) (.file content modified)).WellFormed :=
  wf.insert (FileNames.isProper_withExtension FileNames.temporary_mem_extensions slash) rfl free _

namespace Queue

variable {queue : Queue} {folder : Key} {host : Host}

/-- A queue does not take the files that it is writing for abandoned ones. -/
theorem not_abandoned_staging (valid : queue.token.IsValid) (tree : FileTree) (now : Int)
    (minAgeMs : Nat) (millis : Int) (sequence : UInt64) :
    ¬ queue.Abandoned folder tree now minAgeMs
      (FileNames.staging millis queue.token sequence) := by
  rintro ⟨-, ⟨base, named, -, unmarked⟩, -⟩
  cases (FileNames.baseName?_staging valid millis sequence).symm.trans named
  rw [(FileNames.contains_mark_generated_iff valid valid millis sequence).mpr rfl] at unmarked
  cases unmarked

/-- A sweep answers, and the queue is as it was. Where the directory cannot be listed, nothing
else has changed either. Else the clock was read once, and the files that are gone are the
abandoned ones that the system permits to be looked at and removed: no other entry has changed,
and the answer tells of each of them in turn. A queue never takes its own files for abandoned
because of their names, and generated names of other queues do not spare a file. -/
theorem sweeps_abandoned (serves : host.Serves folder queue.directory)
    (valid : queue.token.IsValid) (minAgeMs : Nat) :
    ∃ result after,
      ((Request.sweep minAgeMs).program queue).run host = ((.swept result, queue), after) ∧
      (match result with
        | .error _ => after.tree = host.tree ∧ (host.Steady →
            FileTree.refusal? queue.directory = none → ¬ host.Reaches folder queue.directory)
        | .ok files => ∃ moment removed, host.calls ≤ moment ∧ moment < after.calls ∧
            removed.Nodup ∧
            (∀ name ∈ removed,
              queue.Abandoned folder host.tree (host.clock moment) minAgeMs name) ∧
            (∀ name, queue.Abandoned folder host.tree (host.clock moment) minAgeMs name →
              host.Permits queue.directory name → name ∈ removed) ∧
            List.Forall₂ (queue.Tells folder host.tree (host.clock moment)) removed files ∧
            host.tree.Erases folder removed after.tree) ∧
      ∀ millis other sequence, other.IsValid →
        ∃ base, FileNames.baseName? (FileNames.staging millis other sequence) = some base ∧
          (FileNames.contains (FileNames.mark queue.token) base = true ↔ other = queue.token) := by
  have outcome := (meets_sweep minAgeMs serves).run
  refine ⟨_, _, by rw [Request.program, Program.run_andThen]; rfl, ?_, ?_⟩
  · generalize (queue.sweep minAgeMs).run host = ended at outcome ⊢
    obtain ⟨result, after⟩ := ended
    cases result with
    | error e => exact outcome
    | ok files =>
      obtain ⟨reaches, moment, removed, since, during, account⟩ := outcome
      refine ⟨moment, removed, since, during, ?_, account.due, ?_, account.told, account.erased⟩
      · exact account.sublist.nodup (Stored.nodup_listed host.tree folder FileNames.temporary)
      · intro name abandoned permits
        obtain ⟨content, modified, there, -⟩ := abandoned.old
        have listed := Stored.mem_listed.mpr ⟨abandoned.temporary, content, modified, there⟩
        exact account.all reaches name listed abandoned permits
  · intro millis other sequence valid'
    exact ⟨_, FileNames.baseName?_staging valid' millis sequence,
      FileNames.contains_mark_generated_iff valid valid' millis sequence⟩

/-- A file of another queue that is old enough is removed; one of the queue itself and one that
was modified in the future stay. -/
theorem sweeps_abandoned_of_three :
    let foreign := FileNames.generated 1700000000000 ⟨"zyxwvuts"⟩ 1
    let own := FileNames.generated 1700000000000 ⟨"abcdefgh"⟩ 1
    let tree := ((FileTree.empty.insert ([] ++ [asTemporary foreign])
        (.file [1, 2] 1699999990000)).insert ([] ++ [asTemporary own])
        (.file [3] 1699999990000)).insert ([] ++ [asTemporary [0x62]]) (.file [4] 1700000100000)
    let host := Host.quiet tree [] 1700000000123 (.start 0)
    let queue : Queue := .ofDefaults [Path.slash] ⟨"abcdefgh"⟩ 0
    host.Serves [] queue.directory ∧ queue.token.IsValid ∧
      ∃ after, ((Request.sweep 5000).program queue).run host
          = ((.swept (.ok [⟨Path.slash :: asTemporary foreign, 2, 10⟩]), queue), after) ∧
        after.tree.lookup [asTemporary foreign] = none ∧
        after.tree.lookup [asTemporary own] = some (.file [3] 1699999990000) ∧
        after.tree.lookup [asTemporary [0x62]] = some (.file [4] 1700000100000) := by
  intro foreign own tree host queue
  have wf : tree.WellFormed :=
    (((Host.offers_quiet 0 (.start 0)).wellFormed.insert_temporary (by decide +kernel)
      (by decide +kernel) _ _).insert_temporary (by decide +kernel)
      (by decide +kernel) _ _).insert_temporary (by decide) (by decide +kernel) _ _
  have offers : host.Offers [] := ⟨wf, by decide +kernel, by decide +kernel⟩
  have serves : host.Serves [] queue.directory := offers.serves (by decide +kernel)
  have valid : queue.token.IsValid := by decide
  refine ⟨serves, valid, ?_⟩
  obtain ⟨result, after, ran, outcome, -⟩ := sweeps_abandoned serves valid 5000
  have swept : ((queue.sweep 5000).run host).1
      = .ok [⟨Path.slash :: asTemporary foreign, 2, 10⟩] := by decide +kernel
  have answered : result = ((queue.sweep 5000).run host).1 := by
    rw [Request.program, Program.run_andThen] at ran
    have same := congrArg (fun ended => ended.1.1) ran
    exact (Answer.swept.inj same).symm
  rw [swept] at answered
  subst answered
  obtain ⟨moment, removed, -, -, -, due, all, -, erased⟩ := outcome
  have there : tree.lookup ([] ++ [asTemporary foreign]) = some (.file [1, 2] 1699999990000) := by
    decide +kernel
  have gone : asTemporary foreign ∈ removed :=
    all _ ⟨by decide +kernel, ⟨foreign, by decide +kernel, List.not_mem_nil, by decide +kernel⟩,
      _, _, there, show 5000 ≤ ((1700000000123 : Int) - 1699999990000).toNat by decide⟩
      ⟨⟨by decide +kernel, by decide +kernel⟩, fun _ => rfl, fun _ => rfl⟩
  have kept : asTemporary own ∉ removed :=
    fun mem => not_abandoned_staging valid _ _ _ 1700000000000 1 (due _ mem)
  have young : asTemporary [0x62] ∉ removed := by
    intro mem
    obtain ⟨content, modified, found, old⟩ := (due _ mem).old
    have future : tree.lookup ([] ++ [asTemporary [0x62]]) = some (.file [4] 1700000100000) := by
      decide +kernel
    cases future.symm.trans found
    exact absurd old (show ¬ 5000 ≤ ((1700000000123 : Int) - 1700000100000).toNat by decide)
  refine ⟨after, ran, erased.lookup_of_mem gone, ?_, ?_⟩
  · exact (erased.lookup_of_notMem kept).trans (by decide +kernel)
  · exact (erased.lookup_of_notMem young).trans (by decide +kernel)

/-- A sweep that tells of nothing has removed nothing. -/
theorem lookup_of_nothing_swept {after : Host} (serves : host.Serves folder queue.directory)
    {minAgeMs : Nat} (ran : (queue.sweep minAgeMs).run host = (.ok [], after)) (key : Key) :
    after.tree.lookup key = host.tree.lookup key := by
  have outcome := (meets_sweep minAgeMs serves).run
  rw [ran] at outcome
  obtain ⟨-, moment, removed, -, -, account⟩ := outcome
  cases account.told
  rw [account.erased, List.map_nil, if_neg List.not_mem_nil]

/-- The path of a file may be too long for the system. The file is abandoned, and the sweep
neither removes it nor tells of it. -/
theorem sweep_skips_long_path :
    let long : Name := List.replicate 250 0x61
    let tree := FileTree.empty.insert ([] ++ [asTemporary long]) (.file [0x78] 0)
    let host := Host.quiet tree [] 1700000000123 (.start 0)
    let queue : Queue := .ofDefaults (List.replicate 3900 Path.slash) ⟨"abcdefgh"⟩ 0
    host.Reaches [] queue.directory ∧
      ∃ after, ((Request.sweep 0).program queue).run host = ((.swept (.ok []), queue), after) ∧
        queue.Abandoned [] host.tree 1700000000123 0 (asTemporary long) ∧
        after.tree.lookup [asTemporary long] = some (.file [0x78] 0) := by
  intro long tree host queue
  have there : tree.lookup ([] ++ [asTemporary long]) = some (.file [0x78] 0) :=
    (FileTree.sets_insert _ [] _ _).lookup_self
  have wf : tree.WellFormed :=
    (Host.offers_quiet 0 (.start 0)).wellFormed.insert_temporary (by decide) (by decide +kernel) _ _
  have offers : host.Offers [] := ⟨wf, rfl, rfl⟩
  have reaches : host.Reaches [] queue.directory := by decide +kernel
  have serves : host.Serves [] queue.directory := offers.serves reaches
  have swept : (queue.sweep 0).run host = (.ok [], ((queue.sweep 0).run host).2) :=
    Program.run_eq (by decide +kernel)
  refine ⟨reaches, ((queue.sweep 0).run host).2, ?_, ?_, ?_⟩
  · rw [Request.program, Program.run_andThen, swept]
    rfl
  · exact ⟨by decide +kernel, ⟨long, by decide +kernel, List.not_mem_nil, by decide +kernel⟩,
      [0x78], 0, there, Nat.zero_le _⟩
  · exact (lookup_of_nothing_swept serves swept _).trans there

end Queue
end DiskQueue
