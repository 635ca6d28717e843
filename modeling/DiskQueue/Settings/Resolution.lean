/-
Module: DiskQueue.Settings.Resolution
Purpose: Where the settings of a queue come from.
Trusted boundary: none
Main exports:
  Settings.Source, Settings.Overrides, Settings.Resolved, Settings.resolve,
  Settings.defaultDirectory
-/
import DiskQueue.Program
import DiskQueue.Settings

namespace DiskQueue.Settings

/-!
At most one settings file is read: the one named on the command line, else the one
named in the environment, else the one in the user's configuration directory if it
is there. A file that was named is read even if it is missing, and the failure
is the answer.

The directory and the capacity of the file give way to the environment, and both
to the command line. An empty variable counts as absent, the one for the capacity
excepted: an empty capacity stands for the default one.
-/

/-- Where the settings file was found. -/
inductive Source where
  | commandLine
  | environment
  | userDirectory
  | builtin
deriving Repr, DecidableEq

/-- Without a file the settings are those that are built in. -/
instance : Inhabited Source := ⟨.builtin⟩

/-- The words for a source. -/
def Source.name : Source → String
  | .commandLine => "CLI argument"
  | .environment => "environment variable"
  | .userDirectory => "XDG config"
  | .builtin => "builtin default"

/-- All sources, the strongest one first. -/
def Source.all : List Source := [.commandLine, .environment, .userDirectory, .builtin]

/-- What was chosen on the command line. -/
structure Overrides where
  file : Option Path
  directory : Option Path
  capacityMb : Option Int64
deriving Repr, DecidableEq

/-- Settings, the file that they were read from, and where it was found. -/
structure Resolved where
  settings : Settings
  file : Option Path
  source : Source
deriving Repr, DecidableEq

/-- The variable that names a settings file. -/
def fileVariable : String := "SPOOL_CONFIG"

/-- The variable for the directory. -/
def directoryVariable : String := "SPOOL_DIR"

/-- The variable for the capacity. -/
def capacityVariable : String := "SPOOL_CAPACITY_MB"

/-- The value of a variable that is set and not empty. -/
def nonEmpty? (environment : Environment) (key : String) : Option String :=
  (environment key).filter fun value => value ≠ ""

/-- The directory for temporary files. -/
def temporaryDirectory (environment : Environment) : Path :=
  Utf8.encode ((environment "TMPDIR").getD "/tmp")

/-- The directory of a queue for which none is set. -/
def defaultDirectory (environment : Environment) : Path :=
  (temporaryDirectory environment).join (Utf8.encode "transmissions")

/-- The directory for the user's settings files. A variable that holds a relative
path is passed over. -/
def userDirectory? (environment : Environment) : Option Path :=
  match ((environment "XDG_CONFIG_HOME").map Utf8.encode).filter Path.isAbsolute with
  | some directory => some directory
  | none =>
    (nonEmpty? environment "HOME").map fun home =>
      Path.join (Utf8.encode home) (Utf8.encode ".config")

/-- The settings file in a directory for settings files. -/
def fileIn (directory : Path) : Path :=
  (directory.join (Utf8.encode "telemetry-spool")).join (Utf8.encode "spool.json")

/-- Looks for the settings file in the user's directory. -/
def locateUserFile (process : Environment) : Program (Option Path × Source) :=
  match userDirectory? process with
  | none => pure (none, .builtin)
  | some directory => do
    if ← Program.isFile (fileIn directory) then pure (some (fileIn directory), .userDirectory)
    else pure (none, .builtin)

/-- Looks for the settings file. -/
def locate (process lookup : Environment) (chosen : Option Path) :
    Program (Option Path × Source) :=
  match chosen with
  | some file => pure (some file, .commandLine)
  | none =>
    match nonEmpty? lookup fileVariable with
    | some file => pure (some (Utf8.encode file), .environment)
    | none => locateUserFile process

/-- Reads a settings file. -/
def load (file : Path) : Program (Except SettingsError Settings) := do
  match ← Program.read file with
  | .error e => pure (.error (.unreadable file e))
  | .ok content =>
    if Utf8.isText content then pure (ofText content)
    else pure (.error (.unreadable file .notText))

/-- The settings of the file that was found, or the defaults. -/
def loadAny : Option Path → Program (Except SettingsError Settings)
  | none => pure (.ok default)
  | some file => do
    Program.log .debug "loading spool config"
    load file

/-- Settings after the environment and the command line have been heard. -/
def override (settings : Settings) (lookup : Environment) (overrides : Overrides) : Settings :=
  { settings with
      directory := overrides.directory.or
        (((nonEmpty? lookup directoryVariable).map Utf8.encode).or settings.directory)
      capacity := (overrides.capacityMb.map Capacity.megabytes).or
        (((lookup capacityVariable).map Capacity.text).or settings.capacity) }

/-- Finds and reads the settings. The places of files come from the environment of
the process, the variables for settings from a lookup that may be another one. -/
def resolve (process lookup : Environment) (overrides : Overrides) :
    Program (Except SettingsError Resolved) := do
  let (file, source) ← locate process lookup overrides.file
  match ← loadAny file with
  | .error e => pure (.error e)
  | .ok settings => pure (.ok ⟨settings.override lookup overrides, file, source⟩)

/-- The directory of a queue with resolved settings. -/
def Resolved.directory (resolved : Resolved) (process : Environment) : Path :=
  resolved.settings.directory.getD (defaultDirectory process)

end DiskQueue.Settings
