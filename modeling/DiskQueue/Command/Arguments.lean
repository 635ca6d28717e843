/-
Module: DiskQueue.Command.Arguments
Purpose: What the arguments of a command line ask for.
Trusted boundary: none
Main exports:
  Scope, Given, Task, Globals, Request, Request.ofArguments
-/
import DiskQueue.Decimal
import DiskQueue.Diagnostics
import DiskQueue.Path

namespace DiskQueue.Command

/-!
The arguments are read in two levels: those before the name of the task, and those
after it. Some options are known at both levels, and the one at the later level
counts. At one level an option may be given only once, `-v` excepted.

An option that takes a value has it in the same argument, behind an equals sign, or
in the next one, which then may not look like an option. A value in the next
argument is checked when the following option or operand is met, or at the end of
its level. So the help for a task is shown although the last value before the name
of the task makes no sense, and a mistake that was met earlier comes first.

Two hyphens end the options of a level.
-/

/-- Where an argument stands: before the name of a task, or after it. -/
inductive Scope where
  | program
  | status
  | push
  | drain
  | sweep
deriving Repr, DecidableEq

/-- The tasks. -/
def Scope.tasks : List Scope := [.status, .push, .drain, .sweep]

/-- The name of a task on the command line. -/
def Scope.name : Scope → String
  | .program => ""
  | .status => "status"
  | .push => "push"
  | .drain => "drain"
  | .sweep => "sweep-temp"

/-- Options without a value. -/
inductive Switch where
  | verbose
  | quiet
  | raw
  | help
  | version
deriving Repr, DecidableEq

/-- The name of a switch after two hyphens. -/
def Switch.longName : Switch → String
  | .verbose => "verbose"
  | .quiet => "quiet"
  | .raw => "raw"
  | .help => "help"
  | .version => "version"

/-- The letter of a switch after one hyphen. -/
def Switch.letter? : Switch → Option Char
  | .verbose => some 'v'
  | .quiet => some 'q'
  | .raw => none
  | .help => some 'h'
  | .version => some 'V'

/-- Options with a value. -/
inductive Setting where
  | directory
  | capacity
  | file
  | logFormat
  | contentType
  | contentEncoding
  | outputDirectory
  | limit
  | olderThan
  | payload
deriving Repr, DecidableEq

/-- The name of an option after two hyphens. The payload is an operand. -/
def Setting.longName? : Setting → Option String
  | .directory => some "dir"
  | .capacity => some "capacity-mb"
  | .file => some "config"
  | .logFormat => some "log-format"
  | .contentType => some "content-type"
  | .contentEncoding => some "content-encoding"
  | .outputDirectory => some "out-dir"
  | .limit => some "limit"
  | .olderThan => some "older-than-secs"
  | .payload => none

/-- The switches that are known in a scope. -/
def Scope.switches : Scope → List Switch
  | .push => [.verbose, .quiet, .help, .version, .raw]
  | _ => [.verbose, .quiet, .help, .version]

/-- The options that are known in every scope. -/
def Setting.everywhere : List Setting := [.directory, .capacity, .file, .logFormat]

/-- The options with a value that are known in a scope. -/
def Scope.settings : Scope → List Setting
  | .push => Setting.everywhere ++ [.contentType, .contentEncoding]
  | .drain => Setting.everywhere ++ [.outputDirectory, .limit]
  | .sweep => Setting.everywhere ++ [.olderThan]
  | _ => Setting.everywhere

/-- The switch with a given name. -/
def Scope.switchNamed? (scope : Scope) (name : Bytes) : Option Switch :=
  scope.switches.find? fun s => Utf8.encode s.longName == name

/-- The switch with a given letter. -/
def Scope.switchLettered? (scope : Scope) (letter : Char) : Option Switch :=
  scope.switches.find? fun s => s.letter? == some letter

/-- The option with a given name. -/
def Scope.settingNamed? (scope : Scope) (name : Bytes) : Option Setting :=
  scope.settings.find? fun s => s.longName?.map Utf8.encode == some name

/-! ### What was given at one level -/

/-- The values given at one level. -/
structure Given where
  directory : Option Path
  capacity : Option Int64
  file : Option Path
  logFormat : Option LogFormat
  contentType : Option String
  contentEncoding : Option String
  outputDirectory : Option Path
  limit : Option UInt64
  olderThan : Option UInt64
  payload : Option Path
  verbose : Nat
  quiet : Bool
  raw : Bool
deriving Repr, DecidableEq

/-- Nothing given. -/
def Given.nothing : Given :=
  ⟨none, none, none, none, none, none, none, none, none, none, 0, false, false⟩

/-- A path that is not empty. -/
def readPath? (value : Bytes) : Option Path := if value = [] then none else some value

/-- A value that is given for the first time and can be read. -/
def once {α : Type} (before read : Option α) : Option (Option α) :=
  match before, read with
  | none, some value => some (some value)
  | _, _ => none

/-- Takes a value for an option; nothing if it cannot be read or if the option was
given before. -/
def Given.set (given : Given) (setting : Setting) (value : Bytes) : Option Given :=
  let text := Utf8.decode? value
  match setting with
  | .directory =>
    (once given.directory (readPath? value)).map fun v => { given with directory := v }
  | .capacity =>
    (once given.capacity (text.bind fun t => Decimal.readInt64? t.toList)).map
      fun v => { given with capacity := v }
  | .file => (once given.file (readPath? value)).map fun v => { given with file := v }
  | .logFormat =>
    (once given.logFormat (text.bind LogFormat.parse?)).map fun v => { given with logFormat := v }
  | .contentType => (once given.contentType text).map fun v => { given with contentType := v }
  | .contentEncoding =>
    (once given.contentEncoding text).map fun v => { given with contentEncoding := v }
  | .outputDirectory =>
    (once given.outputDirectory (readPath? value)).map fun v => { given with outputDirectory := v }
  | .limit =>
    (once given.limit (text.bind fun t => Decimal.readUInt64? t.toList)).map
      fun v => { given with limit := v }
  | .olderThan =>
    (once given.olderThan (text.bind fun t => Decimal.readUInt64? t.toList)).map
      fun v => { given with olderThan := v }
  | .payload => (once given.payload (readPath? value)).map fun v => { given with payload := v }

/-- Why reading ends before the end of the arguments. -/
inductive Stop where
  | help
  | version
  | misuse
deriving Repr, DecidableEq

/-- Takes a switch. -/
def Given.turn (given : Given) : Switch → Except Stop Given
  | .verbose => .ok { given with verbose := given.verbose + 1 }
  | .quiet => if given.quiet then .error .misuse else .ok { given with quiet := true }
  | .raw => if given.raw then .error .misuse else .ok { given with raw := true }
  | .help => .error .help
  | .version => .error .version

/-! ### Reading one level -/

/-- What was given so far, and a value that is not checked yet. -/
structure Reading where
  given : Given
  pending : Option (Setting × Bytes)
deriving Repr, DecidableEq

/-- Nothing read. -/
def Reading.start : Reading := ⟨Given.nothing, none⟩

/-- Checks the value that is waiting. -/
def Reading.settle (level : Reading) : Except Stop Given :=
  match level.pending with
  | none => .ok level.given
  | some (setting, value) =>
    match level.given.set setting value with
    | some given => .ok given
    | none => .error .misuse

/-- Takes a switch, after the value that is waiting. -/
def Reading.turn (level : Reading) (s : Switch) : Except Stop Reading := do
  let given ← level.settle
  let given ← given.turn s
  pure ⟨given, none⟩

/-- Takes a value that stands in the same argument as its option. -/
def Reading.set (level : Reading) (setting : Setting) (value : Bytes) : Except Stop Reading := do
  let given ← level.settle
  match given.set setting value with
  | some given => pure ⟨given, none⟩
  | none => .error .misuse

/-- Takes a value whose check has to wait. -/
def Reading.wait (level : Reading) (setting : Setting) (value : Bytes) : Except Stop Reading := do
  let given ← level.settle
  pure ⟨given, some (setting, value)⟩

/-- Takes the switches in one argument, up to the first part that is none. -/
def Reading.turnAll (scope : Scope) (level : Reading) : List Utf8.Piece → Except Stop Reading
  | [] => .ok level
  | .broken _ :: _ => .error .misuse
  | .char letter :: rest =>
    match scope.switchLettered? letter with
    | none => .error .misuse
    | some s =>
      match level.turn s with
      | .error stop => .error stop
      | .ok level => level.turnAll scope rest

/-- Takes an operand. -/
def Reading.operand (scope : Scope) (level : Reading) (value : Bytes) : Except Stop Reading := do
  let given ← level.settle
  if scope = .push ∧ given.payload = none then pure ⟨given, some (.payload, value)⟩
  else .error .misuse

/-- Takes operands only. -/
def Reading.operands (scope : Scope) (level : Reading) : List Bytes → Except Stop Reading
  | [] => .ok level
  | value :: rest =>
    match level.operand scope value with
    | .error stop => .error stop
    | .ok level => level.operands scope rest

/-- A hyphen. -/
def hyphen : UInt8 := 0x2D

/-- What an argument looks like. -/
inductive Shape where
  | separator
  | long (name : Bytes) (value : Option Bytes)
  | short (letters : Bytes)
  | plain
deriving Repr, DecidableEq

/-- A long option without its hyphens, up to an equals sign and after it. -/
def splitEquals (body : Bytes) : Bytes × Option Bytes :=
  match body.dropWhile (· ≠ 0x3D) with
  | [] => (body, none)
  | _ :: value => (body.takeWhile (· ≠ 0x3D), some value)

/-- What an argument looks like. -/
def Shape.of (argument : Bytes) : Shape :=
  match argument with
  | [a, b] => if a = hyphen ∧ b = hyphen then .separator else if a = hyphen then .short [b] else .plain
  | a :: b :: rest =>
    if a = hyphen ∧ b = hyphen then .long (splitEquals rest).1 (splitEquals rest).2
    else if a = hyphen then .short (b :: rest)
    else .plain
  | _ => .plain

/-- Whether letters go on like a number that has had its point or its `e`. An `e`
is not the last letter. -/
def continuesNumber (point exponent : Bool) : Bytes → Bool
  | [] => true
  | b :: rest =>
    if Decimal.isDigit b then continuesNumber point exponent rest
    else if b = 0x2E then !point && !exponent && continuesNumber true exponent rest
    else b = 0x65 && !exponent && !rest.isEmpty && continuesNumber point true rest

/-- Whether letters look like a number, from its first digit on. -/
def looksNumeric : Bytes → Bool
  | [] => false
  | b :: rest => Decimal.isDigit b && continuesNumber false false rest

/-- Whether an argument can be the value of the option before it. A capacity may
look like a negative number. -/
def isValueFor (setting : Setting) (argument : Bytes) : Bool :=
  match Shape.of argument with
  | .plain => true
  | .short letters => setting = .capacity && looksNumeric letters
  | _ => false

/-- How the reading of a level ended: with the arguments, or with the name of a
task and the arguments after it. -/
inductive Ended where
  | all
  | task (name : Bytes) (rest : List Bytes)
deriving Repr, DecidableEq

/-- Whether an argument ends the first level. -/
def endsProgram (scope : Scope) (argument : Bytes) : Bool :=
  scope = .program &&
    (argument = Utf8.encode "help" || Scope.tasks.any fun task => Utf8.encode task.name == argument)

/-- Reads one level. An option that has been met may be waiting for its value. -/
def Reading.read (scope : Scope) (level : Reading) (awaiting : Option Setting) :
    List Bytes → Except Stop (Reading × Ended)
  | [] => if awaiting = none then .ok (level, .all) else .error .misuse
  | argument :: rest =>
    match awaiting with
    | some setting =>
      if isValueFor setting argument then
        match level.wait setting argument with
        | .error stop => .error stop
        | .ok level => level.read scope none rest
      else .error .misuse
    | none =>
      if endsProgram scope argument then .ok (level, .task argument rest)
      else
        match Shape.of argument with
        | .separator => (level.operands scope rest).map fun level => (level, .all)
        | .plain =>
          match level.operand scope argument with
          | .error stop => .error stop
          | .ok level => level.read scope none rest
        | .short letters =>
          match level.turnAll scope (Utf8.pieces letters) with
          | .error stop => .error stop
          | .ok level => level.read scope none rest
        | .long name value =>
          match scope.settingNamed? name, scope.switchNamed? name, value with
          | some setting, _, some value =>
            match level.set setting value with
            | .error stop => .error stop
            | .ok level => level.read scope none rest
          | some setting, _, none =>
            match level.settle with
            | .error stop => .error stop
            | .ok given => Reading.read scope ⟨given, none⟩ (some setting) rest
          | none, some s, none =>
            match level.turn s with
            | .error stop => .error stop
            | .ok level => level.read scope none rest
          | none, _, _ => .error .misuse

/-! ### Requests -/

/-- What is to be done. -/
inductive Task where
  | status
  | push (payload : Path) (raw : Bool) (contentType contentEncoding : String)
  | drain (outputDirectory : Option Path) (limit : Nat)
  | sweep (olderThanSeconds : Nat)
deriving Repr, DecidableEq

/-- The options that concern every task. -/
structure Globals where
  directory : Option Path
  capacity : Option Int64
  file : Option Path
  logFormat : Option LogFormat
  verbose : Nat
  quiet : Bool
deriving Repr, DecidableEq

/-- What a command line asks for. -/
inductive Request where
  | perform (globals : Globals) (task : Task)
  | help
  | version (scope : Scope)
  | misuse
deriving Repr, DecidableEq

/-- The options of two levels, where those of the later level count. -/
def Globals.merge (earlier later : Given) : Globals where
  directory := later.directory.or earlier.directory
  capacity := later.capacity.or earlier.capacity
  file := later.file.or earlier.file
  logFormat := later.logFormat.or earlier.logFormat
  verbose := if later.verbose = 0 then earlier.verbose else later.verbose
  quiet := later.quiet || earlier.quiet

/-- The task for what was given after its name. Bare bytes have no labels. -/
def Task.ofGiven (scope : Scope) (given : Given) : Except Stop Task :=
  match scope with
  | .program => .error .misuse
  | .status => .ok .status
  | .push =>
    match given.payload with
    | none => .error .misuse
    | some payload =>
      if given.raw ∧ (given.contentType ≠ none ∨ given.contentEncoding ≠ none) then .error .misuse
      else
        .ok (.push payload given.raw (given.contentType.getD "application/x-json-stream")
          (given.contentEncoding.getD ""))
  | .drain => .ok (.drain given.outputDirectory (given.limit.getD 100).toNat)
  | .sweep => .ok (.sweep (given.olderThan.getD 3600).toNat)

/-- The request for a level that ended early. -/
def Request.ofStop (scope : Scope) : Stop → Request
  | .help => .help
  | .version => .version scope
  | .misuse => .misuse

/-- The request for help with the named tasks. -/
def Request.ofHelp : List Bytes → Request
  | [] => .help
  | [name] => if endsProgram .program name then .help else .misuse
  | _ => .misuse

/-- Reads the arguments after the name of a task. -/
def Task.read (scope : Scope) (arguments : List Bytes) : Except Stop (Given × Task) :=
  match Reading.start.read scope none arguments with
  | .error stop => .error stop
  | .ok (level, _) =>
    match level.settle with
    | .error stop => .error stop
    | .ok given => (Task.ofGiven scope given).map fun task => (given, task)

/-- The request for a task, its arguments, and the level before it. -/
def Request.ofTask (earlier : Reading) (scope : Scope) (arguments : List Bytes) : Request :=
  match Task.read scope arguments with
  | .error stop => .ofStop scope stop
  | .ok (later, task) =>
    match earlier.settle with
    | .error stop => .ofStop .program stop
    | .ok given => .perform (Globals.merge given later) task

/-- The request that the arguments stand for. -/
def Request.ofArguments (arguments : List Bytes) : Request :=
  match Reading.start.read .program none arguments with
  | .error stop => .ofStop .program stop
  | .ok (_, .all) => .misuse
  | .ok (level, .task name rest) =>
    match Scope.tasks.find? fun task => Utf8.encode task.name == name with
    | some scope => .ofTask level scope rest
    | none => .ofHelp rest

end DiskQueue.Command
