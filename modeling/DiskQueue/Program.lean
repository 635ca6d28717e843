/-
Module: DiskQueue.Program
Purpose: Work on files as the tree of its calls.
Trusted boundary: none
Main exports:
  Call, Call.Reply, Program, Program.bind
-/
import DiskQueue.Diagnostics
import DiskQueue.FailureTally
import DiskQueue.FileTree.Operations

namespace DiskQueue

/-!
Work that touches files, clocks or the log does so by calls. A program is the
tree of its calls: it is done, or it makes a call and goes on with the reply,
whatever that is. Between two calls nothing happens, so the calls are the places
where work can be cut off, and where a fault can strike.
-/

/-- What a program asks of its host. -/
inductive Call where
  | file (op : FileOp)
  | now
  | pause (ms : UInt64)
  | log (event : Event)
  | report (report : Report)
deriving Repr, DecidableEq

/-- What a host replies. The time is in milliseconds. -/
def Call.Reply : Call → Type
  | .file op => Except IoError op.Result
  | .now => Int
  | .pause _ => Unit
  | .log _ => Unit
  | .report _ => Unit

/-- Work as the tree of its calls. -/
inductive Program (α : Type) where
  | done (value : α)
  | call (c : Call) (next : c.Reply → Program α)

namespace Program

/-- One program after another. -/
def bind {α β : Type} : Program α → (α → Program β) → Program β
  | .done value, f => f value
  | .call c next, f => .call c fun reply => bind (next reply) f

instance : Monad Program where
  pure := .done
  bind := bind

/-- Doing nothing afterwards changes nothing. -/
theorem bind_done {α : Type} (p : Program α) : p.bind .done = p := by
  induction p with
  | done value => rfl
  | call c next ih => exact congrArg (Program.call c) (funext ih)

/-- Three programs after another, in either grouping. -/
theorem bind_assoc {α β γ : Type} (p : Program α) (f : α → Program β) (g : β → Program γ) :
    (p.bind f).bind g = p.bind fun value => (f value).bind g := by
  induction p with
  | done value => rfl
  | call c next ih => exact congrArg (Program.call c) (funext ih)

instance : LawfulMonad Program :=
  LawfulMonad.mk' Program bind_done (fun _ _ => rfl) (fun p f g => bind_assoc p f g)

/-! ### Single calls -/

/-- An operation on files. -/
def file (op : FileOp) : Program (Except IoError op.Result) := .call (.file op) .done

/-- Makes a directory. -/
def makeDirectory (path : Path) : Program (Except IoError Unit) := file (.makeDirectory path)

/-- Asks for the entries of a directory. -/
def list (path : Path) : Program (Except IoError (List (Name × EntryKind))) := file (.list path)

/-- Asks what is known about an entry. -/
def stat (path : Path) : Program (Except IoError Stat) := file (.stat path)

/-- Makes a file where nothing stands. -/
def createNew (path : Path) : Program (Except IoError Unit) := file (.createNew path)

/-- Makes or empties a file. -/
def createEmpty (path : Path) : Program (Except IoError Unit) := file (.createEmpty path)

/-- Puts bytes at the end of a file. -/
def append (path : Path) (content : Bytes) : Program (Except IoError Unit) :=
  file (.append path content)

/-- Waits until a file is stored. -/
def sync (path : Path) : Program (Except IoError Unit) := file (.sync path)

/-- Gives an entry another name. -/
def rename (source target : Path) : Program (Except IoError Unit) := file (.rename source target)

/-- Reads a file. -/
def read (path : Path) : Program (Except IoError Bytes) := file (.read path)

/-- Removes a file. -/
def remove (path : Path) : Program (Except IoError Unit) := file (.remove path)

/-- Asks for the time. -/
def now : Program Int := .call .now .done

/-- Waits. -/
def pause (ms : UInt64) : Program Unit := .call (.pause ms) .done

/-- Reports an event. -/
def log (level : Level) (message : String) : Program Unit := .call (.log ⟨level, message⟩) .done

/-- Reports an event, if there is one. -/
def logAny : Option Event → Program Unit
  | none => .done ()
  | some event => .call (.log event) .done

/-- Reports what became of a transmission. -/
def report (what : Report) : Program Unit := .call (.report what) .done

/-! ### Work on several entries -/

/-- Whether a path leads to a directory. -/
def isDirectory (path : Path) : Program Bool := do
  match ← stat path with
  | .ok found => pure (found.kind = .directory)
  | .error _ => pure false

/-- Whether a path leads to a file. -/
def isFile (path : Path) : Program Bool := do
  match ← stat path with
  | .ok found => pure (found.kind = .file)
  | .error _ => pure false

/-- Makes a directory whose parent is there; one that is there already is fine. -/
def ensureDirectory (path : Path) : Program (Except IoError Unit) := do
  match ← makeDirectory path with
  | .ok () => pure (.ok ())
  | .error e => do
    if ← isDirectory path then pure (.ok ()) else pure (.error e)

/-- Makes a directory and those above it that are missing. The names of its path
stand with the last one first. The path of a directory above is only put together
when that directory is found missing. -/
def ensureFrom (top : Path) : List Name → Path → Program (Except IoError Unit)
  | [], _ => pure (.ok ())
  | _ :: above, path => do
    match ← makeDirectory path with
    | .ok () => pure (.ok ())
    | .error e =>
      if e = .notFound then do
        match ← ensureFrom top above (Path.ofReversed top above) with
        | .ok () => ensureDirectory path
        | .error e => pure (.error e)
      else do
        if ← isDirectory path then pure (.ok ()) else pure (.error e)

/-- Makes a directory and those above it that are missing. -/
def ensureDirectories (path : Path) : Program (Except IoError Unit) :=
  if path = [] then pure (.ok ())
  else
    match path.names.reverse with
    | [] => ensureDirectory path
    | names => ensureFrom path.top names path

/-- Makes or empties a file and gives it a content. -/
def writeFile (path : Path) (content : Bytes) : Program (Except IoError Unit) := do
  match ← createEmpty path with
  | .error e => pure (.error e)
  | .ok () => append path content

end Program
end DiskQueue
