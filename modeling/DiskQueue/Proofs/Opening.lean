/-
Module: DiskQueue.Proofs.Opening
Purpose: What opening a queue does to its folder, and which size the queue starts with.
Trusted boundary: none
Main exports:
  Queue.checkName, Queue.Checked, Queue.meets_ensureAccessible,
  Stored.totalLength, Stored.meets_totalSize, Queue.OpenOutcome, Queue.meets_openWith
-/
import DiskQueue.Proofs.Taking

namespace DiskQueue

open FileTree (Fits Sets Follows)

/-!
A queue is opened on a directory that is there. Nothing is made on the way to it, also
if a fault makes a directory look as if it were missing. In the folder one file is made
and removed again; it stays there if the work is cut off between the two, or if removing
it fails. Then the files of all records are measured.
-/

namespace Program

variable {folder : Key} {directory : Path} {host : Host} {cut : FileTree → Prop} {α : Type}
  {post : α → Host → Prop}

/-- A directory that is there is not made again, whether or not a fault strikes. -/
theorem Meets.makeDirectory {f : Except IoError Unit → Program α} {path : Path} {reason : IoError}
    (there : host.tree.makeDirectory host.directory path = .error reason) (here : cut host.tree)
    (failed : ∀ e after, host.Later after → after.tree = host.tree →
      (host.Faultless → e = reason) → Meets cut post (f (.error e)) after) :
    Meets cut post (makeDirectory path >>= f) host := by
  apply Meets.file here (by simp)
  · intro e after later _ same why
    apply failed e after later same
    intro faultless
    have result := why (faultless _ _)
    rw [FileTree.perform, there] at result
    cases result
    rfl
  · rintro ⟨⟩ after later performed
    cases (FileTree.changed_eq_ok performed).symm.trans there

/-- A directory is only taken for something else because of a fault. -/
theorem meets_isDirectory (path : Path) (here : cut host.tree) :
    Meets cut
      (fun result after => after.tree = host.tree ∧ (host.Faultless →
        ∀ key, host.tree.locate host.directory path = .ok (key, .directory) → result = true))
      (isDirectory path) host := by
  apply Meets.file here (by simp)
  · intro e after later _ same why
    refine Meets.done (by rwa [same]) ⟨same, ?_⟩
    intro faultless key found
    have result := why (faultless _ _)
    rw [FileTree.perform, FileTree.stat, found] at result
    cases result
  · intro result after later performed
    have done : host.tree.stat host.directory path = .ok result := congrArg Prod.fst performed
    have same : host.tree = after.tree := congrArg Prod.snd performed
    refine Meets.done (same ▸ here) ⟨same.symm, ?_⟩
    intro _ key found
    rw [FileTree.stat, found] at done
    cases done
    rfl

/-- The answer is that of a directory that is there, unless a fault strikes. -/
theorem meets_unlessDirectory (path : Path) (e : IoError) (here : cut host.tree) :
    Meets cut
      (fun (result : Except IoError Unit) after => after.tree = host.tree ∧ (host.Faultless →
        ∀ key, host.tree.locate host.directory path = .ok (key, .directory) → result = .ok ()))
      (do if ← isDirectory path then pure (.ok ()) else pure (.error e)) host := by
  apply (meets_isDirectory path here).bind
  rintro isOne after later here ⟨same, known⟩
  cases isOne with
  | true => exact Meets.done here ⟨same, fun _ _ _ => rfl⟩
  | false =>
    refine Meets.done here ⟨same, ?_⟩
    intro faultless key found
    cases known faultless key found

theorem meets_ensureDirectory {path : Path}
    (there : ∃ e, host.tree.makeDirectory host.directory path = .error e) (here : cut host.tree) :
    Meets cut
      (fun result after => after.tree = host.tree ∧ (host.Faultless →
        ∀ key, host.tree.locate host.directory path = .ok (key, .directory) → result = .ok ()))
      (ensureDirectory path) host := by
  obtain ⟨reason, there⟩ := there
  apply Meets.makeDirectory there here
  intro e after later same _
  have hereAfter : cut after.tree := by rwa [same]
  refine (meets_unlessDirectory path e hereAfter).mono (fun _ stopped => stopped) ?_
  rintro result last - ⟨sameLast, known⟩
  rw [same, later.directory] at known
  exact ⟨sameLast.trans same, fun faultless => known (later.faultless faultless)⟩

/-- The directories above one that is there are there as well. -/
theorem meets_ensureFrom (top : Path) (names : List Name) {path : Path}
    (there : ∃ e, host.tree.makeDirectory host.directory path = .error e)
    (above : ∀ shorter, shorter <:+ names.tail → shorter ≠ [] →
      ∃ e, host.tree.makeDirectory host.directory (Path.ofReversed top shorter) = .error e)
    (here : cut host.tree) :
    Meets cut
      (fun result after => after.tree = host.tree ∧ (host.Faultless →
        host.tree.makeDirectory host.directory path = .error .alreadyExists →
        ∀ key, host.tree.locate host.directory path = .ok (key, .directory) → result = .ok ()))
      (ensureFrom top names path) host := by
  induction names generalizing path host with
  | nil => exact Meets.done here ⟨rfl, fun _ _ _ _ => rfl⟩
  | cons name more ih =>
    obtain ⟨reason, exists_⟩ := there
    apply Meets.makeDirectory exists_ here
    intro e after later same why
    have hereAfter : cut after.tree := by rwa [same]
    dsimp only
    split
    · rename_i missing
      have made : Meets cut (fun _ last => last.tree = after.tree)
          (ensureFrom top more (Path.ofReversed top more)) after := by
        cases more with
        | nil => exact Meets.done hereAfter rfl
        | cons next more =>
          refine (ih ?_ ?_ hereAfter).mono (fun _ stopped => stopped) fun _ _ _ h => h.1
          · rw [same, later.directory]
            exact above _ List.suffix_rfl (List.cons_ne_nil _ _)
          · rw [same, later.directory]
            intro shorter suffix nonempty
            exact above shorter (suffix.trans (List.suffix_cons _ _)) nonempty
      -- Only a fault makes the directory look as if those above it were missing.
      have struck : host.Faultless →
          host.tree.makeDirectory host.directory path ≠ .error .alreadyExists := by
        intro faultless known
        rw [known] at exists_
        cases exists_
        cases missing.symm.trans (why faultless)
      apply made.bind
      intro result last laterLast hereLast sameLast
      have same := sameLast.trans same
      have later := later.trans laterLast
      cases result with
      | error e =>
        exact Meets.done hereLast ⟨same, fun faultless known => absurd known (struck faultless)⟩
      | ok done =>
        have there : ∃ e, last.tree.makeDirectory last.directory path = .error e :=
          ⟨reason, by rwa [same, later.directory]⟩
        refine (meets_ensureDirectory there hereLast).mono (fun _ stopped => stopped) ?_
        rintro result final - ⟨unchanged, -⟩
        exact ⟨unchanged.trans same, fun faultless known => absurd known (struck faultless)⟩
    · refine (meets_unlessDirectory path e hereAfter).mono (fun _ stopped => stopped) ?_
      rintro result last - ⟨sameLast, known⟩
      rw [same, later.directory] at known
      exact ⟨sameLast.trans same, fun faultless _ => known (later.faultless faultless)⟩

/-- Nothing is made where a path leads to a directory. -/
theorem meets_ensureDirectories (serves : host.Serves folder directory)
    (reaches : host.Reaches folder directory) (here : cut host.tree) :
    Meets cut
      (fun result after => after.tree = host.tree ∧
        (host.Faultless → FileTree.refusal? directory = none → result = .ok ()))
      (ensureDirectories directory) host := by
  obtain ⟨reason, there, known⟩ :=
    FileTree.makeDirectory_of_folder serves.wellFormed serves.current reaches
  have located : FileTree.refusal? directory = none →
      host.tree.locate host.directory directory = .ok (folder, .directory) :=
    fun accepted => FileTree.locate_directory_iff.mpr ⟨accepted, reaches⟩
  unfold ensureDirectories
  split
  · exact Meets.done here ⟨rfl, fun _ _ => rfl⟩
  · split
    · refine (meets_ensureDirectory ⟨reason, there⟩ here).mono (fun _ stopped => stopped) ?_
      rintro result after - ⟨same, made⟩
      exact ⟨same, fun faultless accepted => made faultless folder (located accepted)⟩
    · refine (meets_ensureFrom _ _ ⟨reason, there⟩ ?_ here).mono (fun _ stopped => stopped) ?_
      · intro shorter suffix nonempty
        have start : shorter.reverse <+: Path.names directory := by
          rw [← List.reverse_suffix, List.reverse_reverse]
          exact suffix.trans (List.tail_suffix _)
        obtain ⟨above, found⟩ := FileTree.folder?_above serves.wellFormed serves.current reaches
          start (by simpa using nonempty)
        obtain ⟨e, failed, -⟩ :=
          FileTree.makeDirectory_of_folder serves.wellFormed serves.current found
        exact ⟨e, failed⟩
      · rintro result after - ⟨same, made⟩
        refine ⟨same, ?_⟩
        intro faultless accepted
        exact made faultless (known accepted ▸ there) folder (located accepted)

end Program

namespace Queue

variable {folder : Key} {directory : Path} {host : Host} {token : ProcessToken}

/-! ### The check that a folder can be written -/

/-- The name of the file that is made to find out whether a folder can be written. -/
def checkName (token : ProcessToken) : Name := Utf8.encode ".write-check-" ++ token.bytes

theorem isProper_checkName (valid : token.IsValid) : (checkName token).IsProper := by
  have start : Path.slash ∉ Utf8.encode ".write-check-" := by decide +kernel
  have long : 13 ≤ (checkName token).length := by
    have : (Utf8.encode ".write-check-").length = 13 := by decide +kernel
    rw [checkName, List.length_append, this]
    omega
  refine ⟨?_, ?_, ?_, ?_⟩
  · intro empty
    rw [empty] at long
    exact absurd long (by decide)
  · rw [checkName, List.mem_append]
    rintro (mem | mem)
    · exact start mem
    · exact (ProcessToken.mem_bytes valid mem).2.2.1 rfl
  · intro dot
    rw [dot] at long
    exact absurd long (by decide)
  · intro dots
    rw [dots] at long
    exact absurd long (by decide)

/-- Nothing has changed, or the file of the check is there or gone. -/
def Checked (folder : Key) (token : ProcessToken) (before after : FileTree) : Prop :=
  after = before ∨ ∃ node? : Option Node, (∀ node, node? = some node → node.kind = .file) ∧
    Sets folder (checkName token) node? before after

theorem Checked.follows {before after : FileTree} (h : Checked folder token before after)
    (valid : token.IsValid) (plain : before.IsPlain folder (checkName token))
    (here : before.lookup folder = some .directory) : Follows folder before after := by
  rcases h with rfl | ⟨node?, file, sets⟩
  · exact Follows.refl _ _
  · refine sets.follows (fun found => by simpa [Node.kind] using plain _ found) here ?_
    exact fun node made => ⟨file node made, isProper_checkName valid⟩

theorem meets_checkWritable (serves : host.Serves folder directory)
    (reaches : host.Reaches folder directory) (valid : token.IsValid)
    (plain : host.tree.IsPlain folder (checkName token)) :
    Program.Meets (Checked folder token host.tree)
      (fun result after => Checked folder token host.tree after.tree ∧
        match result with
        | .error _ => host.Faultless → ¬ Fits directory (checkName token)
        | .ok () => Sets folder (checkName token) none host.tree after.tree)
      (checkWritable directory token) host := by
  have proper := isProper_checkName valid
  apply Program.Meets.createEmpty serves (.inl rfl) proper plain
  · intro e after later same why
    have here : Checked folder token host.tree after.tree := .inl same
    apply Program.Meets.logged here
    intro told laterTold sameTold
    exact ⟨by rwa [sameTold], fun faultless => why faultless reaches⟩
  · intro made later _ sets
    have here : Checked folder token host.tree made.tree :=
      .inr ⟨_, by rintro node ⟨⟩; rfl, sets⟩
    have follows := sets.follows (fun found => by simpa [Node.kind] using plain _ found)
      serves.isFolder (by rintro node ⟨⟩; exact ⟨rfl, proper⟩)
    apply Program.Meets.remove (serves.follow later follows) here proper
    · intro e after laterAfter same why
      have still : host.Faultless → ¬ Fits directory (checkName token) := by
        intro faultless fits
        have reached := reaches.sets later plain sets
        cases why (later.faultless faultless _ _) reached fits _ sets.lookup_self
      rw [← same] at here
      apply Program.Meets.logged here
      intro told laterTold sameTold
      exact ⟨by rwa [sameTold], still⟩
    · intro after node laterAfter _ _ removed
      have gone := sets.trans removed
      have here : Checked folder token host.tree after.tree := .inr ⟨none, by simp, gone⟩
      exact Program.Meets.done here ⟨here, gone⟩

/-- Without faults a folder is found accessible, if the system takes the path of the file
that is made there. -/
theorem meets_ensureAccessible (serves : host.Serves folder directory)
    (reaches : host.Reaches folder directory) (valid : token.IsValid)
    (plain : host.tree.IsPlain folder (checkName token)) :
    Program.Meets (Checked folder token host.tree)
      (fun result after => Checked folder token host.tree after.tree ∧
        match result with
        | .error _ => host.Faultless → FileTree.refusal? directory = none →
            ¬ Fits directory (checkName token)
        | .ok () => Sets folder (checkName token) none host.tree after.tree)
      (ensureAccessible directory token) host := by
  have here : Checked folder token host.tree host.tree := .inl rfl
  apply (Program.meets_ensureDirectories serves reaches here).bind
  rintro made ensured later here ⟨same, ensures⟩
  cases made with
  | error e =>
    apply Program.Meets.logged here
    intro told laterTold sameTold
    refine ⟨by rwa [sameTold], ?_⟩
    intro faultless accepted
    cases ensures faultless accepted
  | ok done =>
    have reaches := (later.reaches_iff same).mpr reaches
    apply (Program.meets_isDirectory directory here).bind
    rintro isOne looked laterLooked here ⟨sameLooked, known⟩
    cases isOne with
    | false =>
      refine Program.Meets.done here ⟨here, ?_⟩
      intro faultless accepted
      cases known (later.faultless faultless) folder
        (FileTree.locate_directory_iff.mpr ⟨accepted, reaches⟩)
    | true =>
      have reaches := (laterLooked.reaches_iff sameLooked).mpr reaches
      have later := later.trans laterLooked
      have same := sameLooked.trans same
      apply Program.Meets.list (serves.unchanged later same) here
      · intro e listed laterListed sameListed why
        rw [← sameListed] at here
        refine Program.Meets.done here ⟨here, ?_⟩
        intro faultless accepted
        exact absurd reaches (why (later.faultless faultless).steady accepted)
      · intro listed laterListed sameListed reaches _
        have reaches := (laterListed.reaches_iff sameListed).mpr reaches
        have later := later.trans laterListed
        have same := sameListed.trans same
        have checked :=
          meets_checkWritable (serves.unchanged later same) reaches valid (by rwa [same])
        rw [same] at checked
        refine checked.mono (fun _ stopped => stopped) ?_
        rintro result after - ⟨stopped, outcome⟩
        refine ⟨stopped, ?_⟩
        cases result with
        | error e => exact fun faultless _ => outcome (later.faultless faultless)
        | ok done => exact outcome

end Queue

/-! ### Sizes -/

namespace Stored

variable {folder : Key} {directory : Path} {host : Host} {cut : FileTree → Prop}

/-- The number of bytes of a file of a folder. -/
def length (tree : FileTree) (folder : Key) (name : Name) : Nat :=
  match tree.lookup (folder ++ [name]) with
  | some (.file content _) => content.length
  | _ => 0

/-- The number of bytes of all files with an extension in a folder. -/
def totalLength (tree : FileTree) (folder : Key) (extension : Name) : Nat :=
  ((listed tree folder extension).map (length tree folder)).sum

/-- Sizes add up, to the greatest word at most. A file that cannot be asked about is left
out. -/
theorem meets_addSizes (serves : host.Serves folder directory) (here : cut host.tree)
    {names : List Name}
    (files : ∀ name ∈ names, name.IsProper ∧
      ∃ content modified, host.tree.lookup (folder ++ [name]) = some (.file content modified))
    (sum : UInt64) :
    Program.Meets cut
      (fun result after => after.tree = host.tree ∧
        result.toNat ≤ sum.toNat + (names.map (length host.tree folder)).sum ∧
        (host.Answers after → host.Reaches folder directory →
          (∀ name ∈ names, Fits directory name ∧ length host.tree folder name < 2 ^ 64) →
          result.toNat = min (sum.toNat + (names.map (length host.tree folder)).sum)
            Saturating.greatest))
      (addSizes sum (names.map directory.join)) host := by
  induction names generalizing host sum with
  | nil =>
    refine Program.Meets.done here ⟨rfl, Nat.le_refl _, fun _ _ _ => ?_⟩
    have small := sum.toNat_lt
    simp only [List.map_nil, List.sum_nil, Saturating.greatest, UInt64.size]
    omega
  | cons name rest ih =>
    obtain ⟨proper, content, modified, there⟩ := files name List.mem_cons_self
    have others := fun other mem => files other (List.mem_cons_of_mem name mem)
    have plain : host.tree.IsPlain folder name := FileTree.isPlain_of_file there
    have size : length host.tree folder name = content.length := by
      unfold length
      rw [there]
    simp only [List.map_cons, List.sum_cons, size]
    apply Program.Meets.stat serves here proper plain
    · intro e after later calls same why
      have last := ih (serves.unchanged later same) (by rwa [same]) (by rwa [same]) sum
      refine last.mono (fun _ stopped => stopped) ?_
      rintro result last laterLast ⟨sameLast, most, -⟩
      rw [same] at most
      refine ⟨sameLast.trans same, by omega, ?_⟩
      intro answers reaches fits
      have asked : host.calls < last.calls := by
        have := laterLast.calls
        omega
      have clear := answers host.calls (directory.join name) (Nat.le_refl _) asked
      rw [why clear reaches (fits name List.mem_cons_self).1] at there
      cases there
    · intro after content' modified' later same there'
      rw [there] at there'
      cases there'
      have last := ih (serves.unchanged later same) (by rwa [same]) (by rwa [same])
        (Saturating.add sum (UInt64.ofNat content.length))
      refine last.mono (fun _ stopped => stopped) ?_
      rintro result last laterLast ⟨sameLast, most, exact⟩
      have wrapped : (UInt64.ofNat content.length).toNat ≤ content.length := by
        rw [UInt64.toNat_ofNat']
        exact Nat.mod_le _ _
      rw [same, Saturating.toNat_add] at most
      refine ⟨sameLast.trans same, by omega, ?_⟩
      intro answers reaches fits
      have small := (fits name List.mem_cons_self).2
      rw [size] at small
      have total := exact (answers.within later (Host.Later.refl last))
        ((later.reaches_iff same).mpr reaches)
        (by rw [same]; exact fun other mem => fits other (List.mem_cons_of_mem name mem))
      rw [same, Saturating.toNat_add, UInt64.toNat_ofNat_of_lt' small] at total
      simp only [Saturating.greatest, UInt64.size] at total ⊢
      omega

/-- A directory that has been listed has a path that the system takes. -/
theorem refusal?_of_totalSize {extension : Name} {size : UInt64}
    (measured : ((totalSize directory extension).run host).1 = .ok size) :
    FileTree.refusal? directory = none := by
  simp only [totalSize, paths, names, Program.run_andThen] at measured
  cases listed : ((Program.list directory).run host).1 with
  | error e =>
    simp only [listed] at measured
    cases measured
  | ok entries =>
    have ran : (host.operate (.list directory)).1 = .ok entries := listed
    unfold Host.operate at ran
    split at ran
    · cases ran
    · obtain ⟨key, accepted, -⟩ := FileTree.list_eq_ok_iff.mp ran
      exact accepted

/-- The files of all records are measured. -/
theorem meets_totalSize (serves : host.Serves folder directory) (here : cut host.tree)
    (extension : Name) :
    Program.Meets cut
      (fun result after => after.tree = host.tree ∧
        match result with
        | .error _ => host.Faultless → FileTree.refusal? directory = none →
            ¬ host.Reaches folder directory
        | .ok size => host.Reaches folder directory ∧ FileTree.refusal? directory = none ∧
          size.toNat ≤ totalLength host.tree folder extension ∧
          (host.Answers after →
            (∀ name ∈ listed host.tree folder extension,
              Fits directory name ∧ length host.tree folder name < 2 ^ 64) →
            size.toNat = min (totalLength host.tree folder extension) Saturating.greatest))
      (totalSize directory extension) host := by
  apply (meets_paths extension serves here).bind
  rintro result after later here ⟨same, found⟩
  cases result with
  | error e => exact Program.Meets.done here ⟨same, fun faultless => found faultless.steady⟩
  | ok paths =>
    obtain ⟨reaches, accepted, rfl⟩ := found
    have files : ∀ name ∈ listed host.tree folder extension, name.IsProper ∧
        ∃ content modified, after.tree.lookup (folder ++ [name]) = some (.file content modified) := by
      intro name mem
      obtain ⟨-, content, modified, there⟩ := mem_listed.mp mem
      rw [same]
      exact ⟨serves.wellFormed.proper there, content, modified, there⟩
    apply (meets_addSizes (serves.unchanged later same) here files 0).bind
    rintro sum last laterLast here ⟨sameLast, most, exact⟩
    rw [same] at most exact
    refine Program.Meets.done here
      ⟨sameLast.trans same, reaches, accepted, by simpa [totalLength] using most, ?_⟩
    intro answers fits
    have total := exact (answers.within later (Host.Later.refl last))
      ((later.reaches_iff same).mpr reaches) fits
    simpa [totalLength] using total

end Stored

namespace Queue

variable {folder : Key} {host : Host} {options : Options} {fallback : Path} {token : ProcessToken}

/-- What opening a queue comes to. It is refused because of a fault, or because of paths
that the system does not take. A queue that has been opened has found its folder, and its
size is that of the records there that it could ask about. -/
inductive OpenOutcome (options : Options) (fallback : Path) (token : ProcessToken) (folder : Key)
    (host after : Host) : Except QueueError Queue → Prop
  | refused (e : QueueError) (checked : Checked folder token host.tree after.tree)
      (why : host.Faultless → FileTree.refusal? (options.directory.getD fallback) = none →
        ¬ Fits (options.directory.getD fallback) (checkName token)) :
      OpenOutcome options fallback token folder host after (.error e)
  | opened (size : UInt64) (sets : Sets folder (checkName token) none host.tree after.tree)
      (reaches : after.Reaches folder (options.directory.getD fallback))
      (accepted : FileTree.refusal? (options.directory.getD fallback) = none)
      (most : size.toNat ≤ Stored.totalLength after.tree folder FileNames.committed)
      (measured : host.Answers after →
        (∀ name ∈ Stored.listed after.tree folder FileNames.committed,
          Fits (options.directory.getD fallback) name ∧
            Stored.length after.tree folder name < 2 ^ 64) →
        size.toNat = min (Stored.totalLength after.tree folder FileNames.committed)
          Saturating.greatest) :
      OpenOutcome options fallback token folder host after
        (.ok {
          directory := options.directory.getD fallback
          token := token
          sequence := 0
          capacityMb := Limits.storage.choose options.capacity
          size := size
          candidates := Candidates.start options.cacheSize options.refillOrder
          deleteRetry := options.deleteRetry })

theorem meets_openWith (serves : host.Serves folder (options.directory.getD fallback))
    (reaches : host.Reaches folder (options.directory.getD fallback)) (valid : token.IsValid)
    (plain : host.tree.IsPlain folder (checkName token)) :
    Program.Meets (Checked folder token host.tree)
      (fun result after => OpenOutcome options fallback token folder host after result)
      (openWith options fallback token) host := by
  apply (meets_ensureAccessible serves reaches valid plain).bind
  rintro result checked later here ⟨-, outcome⟩
  cases result with
  | error e => exact Program.Meets.done here (.refused e here outcome)
  | ok done =>
    have sets : Sets folder (checkName token) none host.tree checked.tree := outcome
    have reaches := reaches.sets later plain sets
    have follows := sets.follows (fun found => by simpa [Node.kind] using plain _ found)
      serves.isFolder (by simp)
    apply Program.Meets.logAny here
    intro told laterTold sameTold
    have reaches := (laterTold.reaches_iff sameTold).mpr reaches
    have later := later.trans laterTold
    rw [← sameTold] at here sets follows
    apply (Stored.meets_totalSize (serves.follow later follows) here FileNames.committed).bind
    rintro result sized laterSized here ⟨sameSized, outcome⟩
    rw [← sameSized] at sets
    cases result with
    | error e =>
      refine Program.Meets.done here (.refused _ here ?_)
      intro faultless accepted
      exact absurd reaches (outcome (later.faultless faultless) accepted)
    | ok size =>
      obtain ⟨-, accepted, most, exact⟩ := outcome
      apply Program.Meets.log here
      intro last laterLast sameLast
      rw [← sameLast] at here sets
      refine Program.Meets.done here (.opened size sets ?_ accepted ?_ ?_)
      · rw [laterLast.reaches_iff sameLast, laterSized.reaches_iff sameSized]
        exact reaches
      · rwa [sameLast, sameSized]
      · intro answers
        rw [sameLast, sameSized]
        exact exact (answers.within later laterLast)

/-- A queue that has been opened is new, and its directory has been listed. -/
theorem of_opened {start ready : Host} {queue : Queue}
    (opened : (openWith options fallback token).run start = (.ok queue, ready)) :
    queue.directory = options.directory.getD fallback ∧ queue.token = token ∧
      queue.candidates = Candidates.start options.cacheSize options.refillOrder ∧
      FileTree.refusal? queue.directory = none := by
  simp only [openWith, Program.run_andThen] at opened
  generalize (ensureAccessible (options.directory.getD fallback) token).run start = ensured
    at opened
  obtain ⟨result, made⟩ := ensured
  cases result with
  | error e => cases opened
  | ok done =>
    simp only [Program.run_andThen] at opened
    generalize ((Program.logAny (Limits.storage.chooseReport? options.capacity)).run made).2 = told
      at opened
    cases sized : ((Stored.totalSize (options.directory.getD fallback) FileNames.committed).run
        told).1 with
    | error e =>
      simp only [sized] at opened
      cases opened
    | ok size =>
      simp only [sized] at opened
      cases opened
      exact ⟨rfl, rfl, rfl, Stored.refusal?_of_totalSize sized⟩

/-- A queue as it is opened with the default options. -/
def ofDefaults (directory : Path) (token : ProcessToken) (size : UInt64) : Queue where
  directory := directory
  token := token
  sequence := 0
  capacityMb := Limits.storage.choose none
  size := size
  candidates := Candidates.start Options.default.cacheSize Options.default.refillOrder
  deleteRetry := Options.default.deleteRetry

end Queue
end DiskQueue
