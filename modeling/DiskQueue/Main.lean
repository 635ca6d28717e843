/-
Module: DiskQueue.Main
Purpose: The command line as a program.
Trusted boundary: the files, variables and clock of the process
Main exports:
  main
-/
import DiskQueue.Command
import DiskQueue.FileTree.Image
import Std.Time.DateTime.Timestamp

namespace DiskQueue.Main

/-!
The files of the queue are kept in an image, which is one file of the process. The
image is read before the run and written back after it, also if the run failed.
The payload and the settings file that a run names are taken from the files of the
process, and the payloads that it writes out are given to them.
-/

/-- The file for the image. -/
def imageFile : IO String := do
  pure ((← IO.getEnv "SPOOL_IMAGE").getD "spool.image")

/-- The tree in the image, or an empty one if there is no image yet. -/
def readImage (file : String) : IO FileTree := do
  let content ← try IO.FS.readBinFile file catch _ => pure ByteArray.empty
  pure ((FileTree.ofImage? content.toList).getD FileTree.empty)

/-- The values of the variables that a run may ask for. -/
def readEnvironment : IO Environment := do
  let values ← Command.variableNames.mapM fun name => do
    pure (name, ← IO.getEnv name)
  pure fun name => (values.lookup name).join

/-- The time in milliseconds. -/
def readClock : IO Int := do
  pure (← Std.Time.Timestamp.now).toMillisecondsSinceUnixEpoch.val

/-- A token for this run. -/
def drawToken : IO ProcessToken := do
  let bytes ← IO.getRandomBytes 8
  pure (ProcessToken.ofRandom (bytes.toList.foldl (fun n b => 256 * n + b.toNat) 0))

/-- The current directory as names from the root. -/
def currentDirectory : IO Key := do
  pure (FileTree.keyOf (Utf8.encode ((← IO.getEnv "PWD").getD "/")))

/-- The tree with those of the named files that the process can read. -/
def takeFiles (tree : FileTree) (directory : Key) (now : Int) : List Path → IO FileTree
  | [] => pure tree
  | path :: rest => do
    let content ← try some <$> IO.FS.readBinFile (Utf8.lossy path) catch _ => pure none
    match content with
    | none => takeFiles tree directory now rest
    | some content =>
      takeFiles (tree.withFile directory path content.toList now) directory now rest

/-- Writes the files of a directory of the tree to the directory of the process with
the same path. -/
def giveFiles (tree : FileTree) (directory : Key) (path : Path) : IO Unit := do
  IO.FS.createDirAll (Utf8.lossy path)
  for (name, content) in tree.filesIn (FileTree.placeOf directory path) do
    IO.FS.writeBinFile (Utf8.lossy (path.join name)) ⟨content.toArray⟩

end DiskQueue.Main

open DiskQueue DiskQueue.Main in
/-- Runs the command line. -/
def main (arguments : List String) : IO UInt32 := do
  let file ← imageFile
  let directory ← currentDirectory
  let environment ← readEnvironment
  let token ← drawToken
  let now ← readClock
  let request := Command.Request.ofArguments (arguments.map Utf8.encode)
  let tree ← takeFiles ((← readImage file).withDirectory directory) directory now
    (Command.inputFiles environment request)
  let host := Host.quiet tree directory now (FailureTally.start 0)
  let (outcome, host) := (Command.run environment token request).run host
  IO.FS.writeBinFile file ⟨host.tree.image.toArray⟩
  if let some path := Command.outputDirectory? request then
    giveFiles host.tree directory path
  for line in Command.logLines environment now host.events request do
    IO.eprintln line
  IO.print outcome.output.render
  IO.eprint outcome.complaint.render
  pure (UInt32.ofNat outcome.code)
