/-
Module: DiskQueue.Proofs.EmptyVariables
Purpose: Where a variable of the environment that is empty counts as one that is not set.
Trusted boundary: none
Main exports:
  Settings.Outcome, Settings.outcome, Settings.emptied_eq_cleared_iff,
  Settings.capacity_lost_to_empty_variable
-/
import DiskQueue.Limits
import DiskQueue.Proofs.Capacity

namespace DiskQueue.Settings

/-!
Three variables say where settings are and what they are. Two runs are compared: in one of them
some of these variables are empty, in the other one they are not set. The file and the directory
come out the same. An empty capacity does not: it stands above the capacity of the file, and what
it asks for is the default.
-/

/-- What settings come to: the file they are from, where it was found, the directory, and the
megabytes that are granted. -/
structure Outcome where
  file : Option Path
  source : Source
  directory : Path
  capacityMb : UInt64
deriving Repr, DecidableEq

/-- What resolved settings come to. -/
def Resolved.outcome (resolved : Resolved) (process : Environment) : Outcome where
  file := resolved.file
  source := resolved.source
  directory := resolved.directory process
  capacityMb := Limits.storage.choose resolved.settings.capacityText

/-- What comes of resolving settings on a host. -/
def outcome (process lookup : Environment) (overrides : Overrides) (host : Host) :
    Except SettingsError Outcome :=
  ((resolve process lookup overrides).run host).1.map fun resolved => resolved.outcome process

/-- The variables that settings are looked up in. -/
def settingVariables : List String := [fileVariable, directoryVariable, capacityVariable]

/-- The environment with some variables empty. -/
def emptied (keys : List String) (environment : Environment) : Environment :=
  fun key => if key ∈ keys then some "" else environment key

/-- The environment with some variables not set. -/
def cleared (keys : List String) (environment : Environment) : Environment :=
  fun key => if key ∈ keys then none else environment key

section Agreement

variable {keys : List String} {process process' lookup : Environment} {overrides : Overrides}
  {host : Host}

theorem nonEmpty?_emptied (keys : List String) (lookup : Environment) (key : String) :
    nonEmpty? (emptied keys lookup) key = nonEmpty? (cleared keys lookup) key := by
  unfold nonEmpty? emptied cleared
  split <;> simp

/-- The places of files depend on other variables alone. -/
theorem places_eq (within : ∀ key ∈ keys, key ∈ settingVariables)
    (same : ∀ key, key ∉ keys → process key = process' key) :
    userDirectory? process = userDirectory? process' ∧
      defaultDirectory process = defaultDirectory process' := by
  have other : ∀ key, key ∉ settingVariables → process key = process' key :=
    fun key outside => same key fun mem => outside (within key mem)
  have config := other "XDG_CONFIG_HOME" (by decide)
  have home := other "HOME" (by decide)
  have temporary := other "TMPDIR" (by decide)
  exact ⟨by simp only [userDirectory?, nonEmpty?, config, home],
    by simp only [defaultDirectory, temporaryDirectory, temporary]⟩

theorem locate_emptied (within : ∀ key ∈ keys, key ∈ settingVariables)
    (same : ∀ key, key ∉ keys → process key = process' key) (lookup : Environment)
    (chosen : Option Path) :
    locate process (emptied keys lookup) chosen = locate process' (cleared keys lookup) chosen := by
  simp only [locate, locateUserFile, nonEmpty?_emptied, (places_eq within same).1]

/-- What settings come to, in terms of what stands in the file. -/
theorem outcome_eq (process lookup : Environment) (overrides : Overrides) (host : Host) :
    outcome process lookup overrides host
      = ((found process lookup overrides.file).run host).1.map fun settings =>
          let place := ((locate process lookup overrides.file).run host).1
          ⟨place.1, place.2, (settings.override lookup overrides).directory.getD
            (defaultDirectory process),
            Limits.storage.choose (settings.override lookup overrides).capacityText⟩ := by
  rw [outcome, run_resolve]
  cases ((found process lookup overrides.file).run host).1 <;> rfl

theorem directory_emptied (keys : List String) (settings : Settings) :
    (settings.override (emptied keys lookup) overrides).directory
      = (settings.override (cleared keys lookup) overrides).directory := by
  simp only [override, nonEmpty?_emptied]

/-- An empty variable for the capacity grants the default. -/
theorem choose_emptied (mem : capacityVariable ∈ keys) (silent : overrides.capacityMb = none)
    (lookup : Environment) (settings : Settings) :
    Limits.storage.choose (settings.override (emptied keys lookup) overrides).capacityText
      = 10 := by
  have text : (settings.override (emptied keys lookup) overrides).capacityText = some "" := by
    simp only [capacityText, override, silent, emptied, if_pos mem]
    rfl
  rw [text]
  decide +kernel

/-- The capacity is the same unless its variable is empty and the command line says nothing. -/
theorem capacityText_emptied (other : capacityVariable ∈ keys → overrides.capacityMb ≠ none)
    (settings : Settings) :
    (settings.override (emptied keys lookup) overrides).capacityText
      = (settings.override (cleared keys lookup) overrides).capacityText := by
  by_cases mem : capacityVariable ∈ keys
  · obtain ⟨megabytes, given⟩ := Option.ne_none_iff_exists'.mp (other mem)
    simp only [capacityText, override, given]
    rfl
  · simp only [capacityText, override, emptied, cleared, if_neg mem]

/-- The same megabytes are granted just if an empty variable that counts takes nothing away. -/
theorem choose_emptied_iff (lookup : Environment) (settings : Settings) :
    Limits.storage.choose (settings.override (emptied keys lookup) overrides).capacityText
        = Limits.storage.choose (settings.override (cleared keys lookup) overrides).capacityText ↔
      (capacityVariable ∈ keys → overrides.capacityMb = none →
        Limits.storage.choose (settings.override (cleared keys lookup) overrides).capacityText
          = 10) := by
  by_cases counts : capacityVariable ∈ keys ∧ overrides.capacityMb = none
  · rw [choose_emptied counts.1 counts.2]
    simp only [counts.1, counts.2, forall_const]
    exact eq_comm
  · rw [capacityText_emptied fun mem silent => counts ⟨mem, silent⟩]
    exact iff_of_true rfl fun mem silent => absurd ⟨mem, silent⟩ counts

/-- Settings come to the same where variables are empty and where they are not set, but for one
case: if the variable for the capacity is among them and the command line names none, an empty one
grants the default, whatever the file says. -/
theorem emptied_eq_cleared_iff (within : ∀ key ∈ keys, key ∈ settingVariables)
    (same : ∀ key, key ∉ keys → process key = process' key) (lookup : Environment)
    (overrides : Overrides) (host : Host) :
    let empty := outcome process (emptied keys lookup) overrides host
    let clear := outcome process' (cleared keys lookup) overrides host
    (∀ e, empty = .error e ↔ clear = .error e) ∧
      (∀ a b, empty = .ok a → clear = .ok b →
        a.file = b.file ∧ a.source = b.source ∧ a.directory = b.directory ∧
        (capacityVariable ∈ keys → overrides.capacityMb = none → a.capacityMb = 10)) ∧
      (empty = clear ↔ (capacityVariable ∈ keys → overrides.capacityMb = none →
        ∀ b, clear = .ok b → b.capacityMb = 10)) := by
  intro empty clear
  have located := locate_emptied within same lookup overrides.file
  have loaded : found process (emptied keys lookup) overrides.file
      = found process' (cleared keys lookup) overrides.file := by
    simp only [found, located]
  have emptyIs : empty = _ := outcome_eq process (emptied keys lookup) overrides host
  have clearIs : clear = _ := outcome_eq process' (cleared keys lookup) overrides host
  rw [loaded, located, (places_eq within same).2] at emptyIs
  cases hFound : ((found process' (cleared keys lookup) overrides.file).run host).1 with
  | error e =>
    rw [hFound] at emptyIs clearIs
    rw [emptyIs, clearIs]
    refine ⟨fun _ => Iff.rfl, ?_, ?_⟩
    · rintro _ _ ⟨⟩
    · refine ⟨?_, fun _ => rfl⟩
      rintro - - - _ ⟨⟩
  | ok settings =>
    rw [hFound] at emptyIs clearIs
    rw [emptyIs, clearIs]
    refine ⟨fun _ => by simp only [Except.map, reduceCtorEq], ?_, ?_⟩
    · rintro _ _ ⟨⟩ ⟨⟩
      exact ⟨rfl, rfl, by simp only [directory_emptied],
        fun mem silent => choose_emptied mem silent lookup _⟩
    · simp only [Except.map, Except.ok.injEq, Outcome.mk.injEq, directory_emptied, true_and,
        choose_emptied_iff, forall_eq']

end Agreement

/-- All three variables, with a file in the user's directory that asks for 50 megabytes. A number
on the command line makes the runs come to the same. -/
theorem emptied_eq_cleared_of_three :
    let process : Environment := fun key => if key = "XDG_CONFIG_HOME" then some "/x" else none
    let text := Utf8.encode "\x7b\"capacity_mb\": 50\x7d"
    let start := Host.quiet ((((FileTree.empty.insert [Utf8.encode "x"] .directory).insert
      [Utf8.encode "x", Utf8.encode "telemetry-spool"] .directory).insert
      [Utf8.encode "x", Utf8.encode "telemetry-spool", Utf8.encode "spool.json"] (.file text 0))) []
      1700000000123 (.start 0)
    let overrides : Overrides := ⟨none, none, some 7⟩
    outcome process (emptied settingVariables process) overrides start
        = outcome process (cleared settingVariables process) overrides start ∧
      outcome process (cleared settingVariables process) overrides start
        = .ok ⟨some (Utf8.encode "/x/telemetry-spool/spool.json"), .userDirectory,
            Utf8.encode "/tmp/transmissions", 7⟩ := by
  intro process text start overrides
  have within : ∀ key ∈ settingVariables, key ∈ settingVariables := fun _ mem => mem
  have same : ∀ key, key ∉ settingVariables → process key = process key := fun _ _ => rfl
  have alike := (emptied_eq_cleared_iff within same process overrides start).2.2
  refine ⟨alike.mpr ?_, by decide +kernel⟩
  rintro - ⟨⟩

/-- With nothing on the command line but the name of the file, the empty variable takes its 50
megabytes away. -/
theorem capacity_lost_to_empty_variable :
    let text := Utf8.encode "\x7b\"capacity_mb\": 50\x7d"
    let start := Host.quiet (FileTree.empty.insert [Utf8.encode "c"] (.file text 0)) []
      1700000000123 (.start 0)
    let overrides : Overrides := ⟨some (Utf8.encode "c"), none, none⟩
    outcome (fun _ => none) (emptied [capacityVariable] fun _ => none) overrides start
        = .ok ⟨some (Utf8.encode "c"), .commandLine, Utf8.encode "/tmp/transmissions", 10⟩ ∧
      outcome (fun _ => none) (cleared [capacityVariable] fun _ => none) overrides start
        = .ok ⟨some (Utf8.encode "c"), .commandLine, Utf8.encode "/tmp/transmissions", 50⟩ := by
  decide +kernel

end DiskQueue.Settings
