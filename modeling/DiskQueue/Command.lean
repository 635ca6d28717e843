/-
Module: DiskQueue.Command
Purpose: The tasks of the command line, and the documents they print.
Trusted boundary: none
Main exports:
  Output, Outcome, Command.perform, Command.run, Command.shownEvents
-/
import DiskQueue.Command.Arguments
import DiskQueue.ExitCode
import DiskQueue.Queue.Survey
import DiskQueue.Settings.Resolution
import DiskQueue.Timestamp

namespace DiskQueue.Command

/-!
A task opens the queue and prints one document: its result on the first output, or
the failure that ended it on the second one. The members of a document stand in
the order of their names. The exit code tells how the task ended.

Draining counts its attempts, whether they give a transmission or not, and stops at
the first one that finds nothing. A payload is written under the number of its
attempt.
-/

/-- What is written to an output. -/
inductive Output where
  | nothing
  | text (lines : List String)
  | document (value : Json)
deriving Repr, Inhabited

/-- How a run ended: the exit code, and what was written to the two outputs. -/
structure Outcome where
  code : Nat
  output : Output
  complaint : Output
deriving Repr, Inhabited

/-! ### Documents -/

/-- A number in a document. -/
def number (n : Nat) : Json := .number (.integer n)

/-- A path in a document. -/
def pathText (path : Path) : Json := .string (Utf8.lossy path)

/-- An object whose members stand in the order of their names. -/
def sortedObject (members : List (String × Json)) : Json :=
  .object (members.mergeSort fun a b => decide (a.1 ≤ b.1))

/-- A document with its version and the time at which it was made. -/
def stamped (members : List (String × Json)) : Program Json := do
  let now ← Program.now
  pure (sortedObject
    (("schema_version", number 1) :: ("generated_at", .string (Timestamp.format now)) :: members))

/-- The document for a failure. -/
def failure (command : Option String) (code : Nat) (category message : String) (exit : ExitCode) :
    Program Outcome := do
  let error := sortedObject
    [("code", number code), ("category", .string category), ("message", .string message),
     ("exit_code", .string exit.name)]
  let document ← stamped
    ((command.map fun name => ("command", Json.string name)).toList
      ++ [("status", .string "error"), ("error", error)])
  pure ⟨exit.number, .nothing, .document document⟩

/-- The document for a failure of the queue. -/
def queueFailure (command : String) (error : QueueError) : Program Outcome :=
  failure (some command) error.code error.category.name error.message (ExitCode.ofError error)

/-- The exit code for settings that were refused. -/
def settingsExit : SettingsError → ExitCode
  | .invalidLimits _ _ => .internalError
  | _ => .badConfiguration

/-- The document for settings that were refused. -/
def settingsFailure (error : SettingsError) : Program Outcome :=
  failure none error.code "config" error.message (settingsExit error)

/-- The document for a task that has been done. -/
def report (command : String) (exit : ExitCode) (members : List (String × Json)) :
    Program Outcome := do
  let document ← stamped (("command", .string command) :: members)
  pure ⟨exit.number, .document document, .nothing⟩

/-! ### Tasks -/

/-- What is in a queue, as part of a document. -/
def statusMembers (status : Status) : List (String × Json) :=
  [("directory", pathText status.directory), ("committed_files", number status.committedFiles),
   ("committed_bytes", number status.committedBytes.toNat),
   ("temp_files", number status.temporaryFiles),
   ("temp_bytes", number status.temporaryBytes.toNat),
   ("tracked_bytes", number status.trackedBytes.toNat),
   ("capacity_mb", number status.capacityMb.toNat),
   ("capacity_bytes", number status.capacityBytes.toNat),
   ("used_pct", .number (.floating status.usedPercent)),
   ("claimed_files", number status.claimedFiles)]

/-- Shows what is in a queue. -/
def runStatus (queue : Queue) : Program Outcome := do
  match ← queue.status with
  | .error e => queueFailure "status" e
  | .ok status => report "status" .clean [("status", sortedObject (statusMembers status))]

/-- Stores a payload, with labels or as bare bytes. -/
def store (queue : Queue) (raw : Bool) (transmission : Transmission) :
    Program (Except QueueError Path × Queue) :=
  if raw then queue.tryEnqueueRaw transmission.content else queue.tryEnqueue transmission

/-- Stores the content of a file. -/
def runPush (queue : Queue) (payload : Path) (raw : Bool) (contentType contentEncoding : String) :
    Program Outcome := do
  match ← Program.read payload with
  | .error e => queueFailure "push" (.read payload e)
  | .ok content => do
    let (stored, queue) ← store queue raw ⟨content, contentType, contentEncoding⟩
    match stored with
    | .error e => queueFailure "push" e
    | .ok committed =>
      report "push" .clean
        [("committed", pathText committed), ("payload_bytes", number content.length),
         ("tracked_bytes", number queue.size.toNat)]

/-- A record that was taken, and the file its payload was written to. -/
structure Drained where
  payloadBytes : Nat
  contentType : String
  contentEncoding : String
  writtenTo : Option Path
deriving Repr, DecidableEq

/-- A record that was taken, as part of a document. -/
def Drained.toJson (record : Drained) : Json :=
  sortedObject
    ([("payload_bytes", number record.payloadBytes), ("content_type", .string record.contentType),
      ("content_encoding", .string record.contentEncoding)]
      ++ (record.writtenTo.map fun path => ("written_to", pathText path)).toList)

/-- The file for the payload of an attempt. -/
def payloadPath (directory : Path) (attempt : Nat) : Path :=
  directory.join
    (Utf8.encode "payload-" ++ Decimal.padded 6 attempt ++ Utf8.encode ".bin")

/-- Writes a payload to the output directory, and gives its file, and the number of
failures. -/
def writePayload (directory : Option Path) (attempt : Nat) (content : Bytes) :
    Program (Option Path × Nat) :=
  match directory with
  | none => pure (none, 0)
  | some directory => do
    match ← Program.writeFile (payloadPath directory attempt) content with
    | .ok () => pure (some (payloadPath directory attempt), 0)
    | .error _ => do
      Program.log .warn "unable to write drained payload"
      pure (none, 1)

/-- What draining has come to: the records, the last one first, and the number of
failures. -/
structure Tally where
  records : List Drained
  failed : Nat
deriving Repr, DecidableEq

/-- Takes records, from a given attempt on and at most so many. -/
def drainFrom (directory : Option Path) (attempt : Nat) (tally : Tally) :
    Nat → Queue → Program (Tally × Queue)
  | 0, queue => pure (tally, queue)
  | more + 1, queue => do
    let (taken, queue) ← queue.tryDequeue
    match taken with
    | .ok none => pure (tally, queue)
    | .error _ => do
      Program.log .warn "record not recovered"
      drainFrom directory (attempt + 1) { tally with failed := tally.failed + 1 } more queue
    | .ok (some transmission) => do
      let (written, failures) ← writePayload directory attempt transmission.content
      let record : Drained :=
        ⟨transmission.length, transmission.contentType, transmission.contentEncoding, written⟩
      drainFrom directory (attempt + 1) ⟨record :: tally.records, tally.failed + failures⟩ more
        queue

/-- The exit code for what draining has come to. -/
def drainExit (tally : Tally) : ExitCode :=
  if 0 < tally.failed then .partialFailure
  else if tally.records = [] then .nothingToDo
  else .clean

/-- Takes records and shows them. -/
def drainAll (queue : Queue) (directory : Option Path) (limit : Nat) : Program Outcome := do
  let (tally, queue) ← drainFrom directory 0 ⟨[], 0⟩ limit queue
  report "drain" (drainExit tally)
    [("drained", number tally.records.length), ("failed", number tally.failed),
     ("records", .array (tally.records.reverse.map Drained.toJson)),
     ("tracked_bytes", number queue.size.toNat)]

/-- Takes records, and writes their payloads to a directory if one is given. -/
def runDrain (queue : Queue) (directory : Option Path) (limit : Nat) : Program Outcome :=
  match directory with
  | none => drainAll queue none limit
  | some path => do
    match ← Program.ensureDirectories path with
    | .ok () => drainAll queue (some path) limit
    | .error e =>
      let name := Utf8.lossy path
      queueFailure "drain" (.config s!"cannot create output directory {name}: {e.message}")

/-- A file that was swept, as part of a document. -/
def sweptJson (file : SweptFile) : Json :=
  sortedObject
    [("path", pathText file.path), ("size_bytes", number file.size),
     ("age_secs", number file.ageSeconds)]

/-- Removes old temporary files. -/
def runSweep (queue : Queue) (olderThanSeconds : Nat) : Program Outcome := do
  match ← queue.sweep (1000 * olderThanSeconds) with
  | .error e => queueFailure "sweep-temp" e
  | .ok files =>
    report "sweep-temp" (if files = [] then .nothingToDo else .clean)
      [("swept", number files.length),
       ("freed_bytes", number (files.foldl (fun sum file => sum + file.size) 0)),
       ("files", .array (files.map sweptJson))]

/-- Does a task with an open queue. -/
def runTask (queue : Queue) : Task → Program Outcome
  | .status => runStatus queue
  | .push payload raw contentType contentEncoding =>
    runPush queue payload raw contentType contentEncoding
  | .drain directory limit => runDrain queue directory limit
  | .sweep olderThanSeconds => runSweep queue olderThanSeconds

/-! ### Runs -/

/-- The options for the queue of resolved settings. -/
def optionsFor (resolved : Settings.Resolved) (environment : Environment) : Queue.Options :=
  { Queue.Options.ofSettings resolved.settings with
      directory := some (resolved.directory environment) }

/-- Finds the settings, opens the queue and does a task. -/
def perform (environment : Environment) (token : ProcessToken) (globals : Globals) (task : Task) :
    Program Outcome := do
  match ← Settings.resolve environment environment
      ⟨globals.file, globals.directory, globals.capacity⟩ with
  | .error e => settingsFailure e
  | .ok resolved => do
    Program.log .debug "resolved spool configuration"
    match ← Queue.openWith (optionsFor resolved environment)
        (Settings.defaultDirectory environment) token with
    | .error e => queueFailure "open" e
    | .ok queue => runTask queue task

/-- The name of the program. -/
def programName : String := "spoolctl"

/-- The number of this release. -/
def release : String := "0.1.0"

/-- The line for the version, which also names the task it was asked with. -/
def versionLine (scope : Scope) : String :=
  if scope = .program then programName ++ " " ++ release
  else programName ++ "-" ++ scope.name ++ " " ++ release

/-- How the program is used. -/
def usage : List String :=
  ["Usage: spoolctl [OPTIONS] <COMMAND>",
   "",
   "Commands:",
   "  status      Show spool directory status",
   "  push        Enqueue the contents of a file",
   "  drain       Dequeue records",
   "  sweep-temp  Delete old temporary files",
   "  help        Print this message",
   "",
   "Options:",
   "      --dir <DIR>                  Spool directory",
   "      --capacity-mb <CAPACITY_MB>  Capacity in megabytes",
   "      --config <CONFIG>            Config file",
   "  -v, --verbose...                 Increase verbosity",
   "  -q, --quiet                      Only log errors",
   "      --log-format <LOG_FORMAT>    Log format on stderr (human, jsonl)",
   "  -h, --help                       Print help",
   "  -V, --version                    Print version"]

/-- Does what the arguments ask for. -/
def run (environment : Environment) (token : ProcessToken) : Request → Program Outcome
  | .help => pure ⟨0, .text usage, .nothing⟩
  | .version scope => pure ⟨0, .text [versionLine scope], .nothing⟩
  | .misuse => pure ⟨2, .nothing, .text ("error: invalid arguments" :: "" :: usage)⟩
  | .perform globals task => perform environment token globals task

/-! ### Events -/

/-- The variable whose level comes before all others. -/
def filterVariable : String := "RUST_LOG"

/-- The level that is chosen by the options. -/
def chosenLevel? (globals : Globals) : Option Level :=
  if globals.quiet then some .error
  else
    match globals.verbose with
    | 0 => none
    | 1 => some .debug
    | _ => some .trace

/-- What is shown of the events of a task, and how. -/
def logSettings (environment : Environment) (globals : Globals) : LogSettings :=
  let chosen := LogSettings.choose (chosenLevel? globals) globals.logFormat environment
  match (environment filterVariable).bind Level.parse? with
  | some level => { chosen with level := level }
  | none => chosen

/-- The events that are shown. -/
def shownEvents (settings : LogSettings) (events : List Event) : List Event :=
  events.filter fun event => settings.level.shows event.level

/-- An event as a line of the log. -/
def logLine (format : LogFormat) (now : Int) (event : Event) : String :=
  let time := Timestamp.format now
  let level := event.level.name.toUpper
  match format with
  | .human => s!"{time} {level} {event.message}"
  | .jsonLines =>
    Utf8.lossy (Json.compact (.object
      [("timestamp", .string time), ("level", .string level),
       ("fields", .object [("message", .string event.message)])]))

/-- The lines of the log for a request. -/
def logLines (environment : Environment) (now : Int) (events : List Event) :
    Request → List String
  | .perform globals _ =>
    let settings := logSettings environment globals
    (shownEvents settings events).map (logLine settings.format now)
  | _ => []

/-- What is written to an output, as a text. -/
def Output.render : Output → String
  | .nothing => ""
  | .text lines => String.join (lines.map fun line => line ++ "\n")
  | .document value => Utf8.lossy value.pretty ++ "\n"

/-- The files that a run reads besides those of the queue. -/
def inputFiles (environment : Environment) : Request → List Path
  | .perform globals task =>
    let settings := globals.file.or
      ((Settings.nonEmpty? environment Settings.fileVariable).map Utf8.encode)
    match task with
    | .push payload _ _ _ => payload :: settings.toList
    | _ => settings.toList
  | _ => []

/-- The directory that a run writes payloads to. -/
def outputDirectory? : Request → Option Path
  | .perform _ (.drain directory _) => directory
  | _ => none

/-- The variables that a run may ask for. -/
def variableNames : List String :=
  ["HOME", "XDG_CONFIG_HOME", "TMPDIR", Settings.fileVariable, Settings.directoryVariable,
   Settings.capacityVariable, LogSettings.levelVariable, LogSettings.formatVariable,
   filterVariable]

end DiskQueue.Command
