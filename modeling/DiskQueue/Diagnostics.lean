/-
Module: DiskQueue.Diagnostics
Purpose: Events that are reported while the program runs, and which of them are shown.
Trusted boundary: none
Main exports:
  Level, LogFormat, Event, Environment, LogSettings, LogSettings.choose
-/

namespace DiskQueue

/-!
An event has a level and a message. An event is shown if its level is at least
the chosen one. What is chosen on the command line comes before the environment,
and the environment before the default; a variable that cannot be read counts as
absent. The time of an event and the values that a log shows beside its message are
left out.
-/

/-- How important an event is; `off` is for no event at all. -/
inductive Level where
  | trace
  | debug
  | info
  | warn
  | error
  | off
deriving Repr, Inhabited, DecidableEq

namespace Level

/-- All levels, the least important one first. -/
def all : List Level := [.trace, .debug, .info, .warn, .error, .off]

/-- The word for a level. -/
def name : Level → String
  | .trace => "trace"
  | .debug => "debug"
  | .info => "info"
  | .warn => "warn"
  | .error => "error"
  | .off => "off"

/-- The place of a level among all levels. -/
def severity : Level → Nat
  | .trace => 0
  | .debug => 1
  | .info => 2
  | .warn => 3
  | .error => 4
  | .off => 5

/-- The level with a given word. -/
def ofName? (word : String) : Option Level := all.find? fun level => level.name == word

/-- Reads a level by its word, in any case of ASCII. -/
def parse? (text : String) : Option Level := ofName? (String.ofList (text.toList.map Char.toLower))

/-- The message for a text that names no level. -/
def unknownMessage (text : String) : String := s!"unknown log level: {text}"

/-- Whether events of a level are shown when another level is chosen. -/
def shows (chosen level : Level) : Bool := chosen.severity ≤ level.severity

/-- The parts of the program whose events a chosen level applies to. -/
def parts : List String := ["spool_core", "spool_config", "spoolctl"]

/-- A level written out for every part of the program. -/
def directives (level : Level) : String :=
  ",".intercalate (parts.map fun part => s!"{part}={level.name}")

end Level

/-- How events are written: for a reader, or as one line of JSON each. -/
inductive LogFormat where
  | human
  | jsonLines
deriving Repr, Inhabited, DecidableEq

namespace LogFormat

/-- Both formats. -/
def all : List LogFormat := [.human, .jsonLines]

/-- The word for a format. -/
def name : LogFormat → String
  | .human => "human"
  | .jsonLines => "jsonl"

/-- The format with a given word. -/
def ofName? (word : String) : Option LogFormat := all.find? fun format => format.name == word

/-- Reads a format by its word or by the short one, in any case of ASCII. -/
def parse? (text : String) : Option LogFormat :=
  let word := String.ofList (text.toList.map Char.toLower)
  if word = "json" then some .jsonLines else ofName? word

/-- The message for a text that names no format. -/
def unknownMessage (text : String) : String :=
  let word := String.ofList (text.toList.map Char.toLower)
  s!"unknown log format: {word}"

end LogFormat

/-- Something that was reported. -/
structure Event where
  level : Level
  message : String
deriving Repr, DecidableEq

/-- The variables of the surroundings that have a value. -/
abbrev Environment := String → Option String

/-- What is shown of the events, and how. -/
structure LogSettings where
  format : LogFormat
  level : Level
deriving Repr, DecidableEq

namespace LogSettings

/-- The variable for the level. -/
def levelVariable : String := "SPOOL_LOG"

/-- The variable for the format. -/
def formatVariable : String := "SPOOL_LOG_FORMAT"

/-- What is used when nothing is chosen. -/
def default : LogSettings := ⟨.human, .info⟩

/-- The settings for what was chosen on the command line and in the environment. -/
def choose (level : Option Level) (format : Option LogFormat) (environment : Environment) :
    LogSettings where
  level := (level.or ((environment levelVariable).bind Level.parse?)).getD default.level
  format := (format.or ((environment formatVariable).bind LogFormat.parse?)).getD default.format

end LogSettings
end DiskQueue
