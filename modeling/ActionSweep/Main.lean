import ActionSweep.Command.Run
import ActionSweep.Files.Change
import Std.Time

/-
The command itself. The files of the project are taken over into a tree, the library works on the
tree, and what it changes there is carried out before the next question is asked.
-/

namespace ActionSweep.Main

/-! ## Files -/

def shown (t : Text) : String := String.ofList t

/-- The name of a place in the tree. -/
def nameOf (path : List Text) : String := shown ("/" ++ Text.join "/" path)

/-- A place in the file system. -/
def entryAt (path : List Text) : IO.FS.DirEntry :=
  ⟨nameOf path.dropLast, shown (path.getLast?.getD ".")⟩

/-- Where links lead whose target does not exist. -/
def nowhere : Text := "/nowhere"

def targetOf (entry : IO.FS.DirEntry) : IO Text :=
  try return (← IO.FS.realPath entry.path).toString.toList
  catch _ => return nowhere

/-- Takes an entry over. What repositories keep in their stores is not needed. -/
partial def take (inRepository : Bool) (entry : IO.FS.DirEntry) : IO Entry := do
  match (← entry.path.symlinkMetadata).type with
  | .dir =>
    if inRepository && entry.fileName == "objects" then return .folder .empty
    let mut d : Dir := .empty
    for inner in ← entry.path.readDir do
      d := d.put inner.fileName.toList (← take (entry.fileName == ".git") inner)
    return .folder d
  | .symlink => return .link (← targetOf entry)
  | _ => return .file (← IO.FS.readBinFile entry.path).toList

/-- Takes over what is at a place, with the folders that lead to it. -/
def takeAt (path : List Text) (root : Dir) : IO Dir := do
  try
    let e ← take false (entryAt path)
    let folders := (List.range path.length).drop 1
    let root := folders.foldl (fun (root : Dir) n =>
      if (root.find? (path.take n)).isSome then root
      else root.putAt (path.take n) (.folder .empty)) root
    return root.putAt path e
  catch _ => return root

/-- Carries out a change. -/
def apply (change : Change) : IO Unit :=
  match change with
  | .removeFile path => IO.FS.removeFile (nameOf path)
  | .removeFolder path => IO.FS.removeDir (nameOf path)
  | .makeFolder path => IO.FS.createDirAll (nameOf path)
  | .write path bytes => IO.FS.writeBinFile (nameOf path) ⟨bytes.toArray⟩
  | .makeLink _ _ => return ()

/-- Carries out the changes of the tree. -/
def applyAll (before after : Dir) : IO Unit := (before.changes after).forM apply

/-- The places that a run with some arguments may need. -/
def places (args : List Text) (here home : Text) : List (List Text) :=
  let given := match Command.Given.ofArguments args with
    | .ok g => [g.value? .projectRoot, g.value? .config].filterMap id
    | .error _ => []
  let folder := (Path.ofText here).parts
  let above := ((List.range folder.length).drop 1).map fun n => folder.take n ++ [".git".toList]
  let settings := ([".config/action-cleanup", ".config/git", ".gitconfig"] : List Text).map
    fun t => ((Path.ofText home).under t).parts
  above ++ settings ++ [folder] ++ given.map fun t => ((Path.ofText here).under t).parts

/-- The files that a run with some arguments may need. -/
def takeDisk (args : List Text) : IO Disk := do
  let here := (← IO.FS.realPath (← IO.currentDir)).toString.toList
  let home := ((← IO.getEnv "HOME").getD "/").toList
  let mut root : Dir := .empty
  for path in places args here home do
    root ← takeAt path root
  return ⟨root, (Path.ofText here).parts, home⟩

/-! ## Terminal -/

/-- The present moment. -/
def now : IO Stamp := do
  let moment := Std.Time.DateTime.ofTimestamp (← Std.Time.Timestamp.now) .UTC
  let precise := moment.toPlainDateTime.format "uuuu-MM-dd'T'HH:mm:ss.SSSSSS'+00:00'"
  let plain := (← Std.Time.PlainDateTime.now).format "uuuu-MM-dd HH:mm:ss"
  return ⟨precise.toList, plain.toList⟩

/-- Writes what has been said since the last time. -/
def flush (console : Console) : IO Console := do
  let output ← IO.getStdout
  output.putStr (shown console.outputText)
  output.flush
  (← IO.getStderr).putStr (shown console.errorText)
  return .new console.styles

/-- Ends a run. -/
def finish (before : Dir) (o : Command.Outcome) : IO UInt32 := do
  applyAll before o.disk.root
  let _ ← flush o.console
  if let some f := o.fault then (← IO.getStderr).putStrLn (shown f.message)
  return o.exitCode.toUInt32

/-- A typed line without its end. -/
def lineOf (line : String) : Text := Text.trimRight (fun c => c = '\n' || c = '\r') line.toList

/-- Asks and answers until a session ends. -/
partial def converse (before : Dir) (s : Session) (next : Next) : IO UInt32 := do
  applyAll before s.disk.root
  match next with
  | .leave => finish s.disk.root (Command.outcome .left s)
  | .ask screen =>
    let s := s.asked screen
    let s := { s with console := ← flush s.console }
    let line ← (← IO.getStdin).getLine
    if line.isEmpty then finish s.disk.root (Command.outcome .abandoned s.abandoned)
    else match Dialog.answer (lineOf line) screen s with
      | .ok next s' => converse s.disk.root s' next
      | .error f s' => finish s.disk.root (Command.outcome (.failed f) s')

end ActionSweep.Main

def main (args : List String) : IO UInt32 := do
  let args := args.map String.toList
  let disk ← ActionSweep.Main.takeDisk args
  let styles ← (← IO.getStdout).isTty
  match ActionSweep.Command.start args styles (← ActionSweep.Main.now) disk with
  | .ended o => ActionSweep.Main.finish disk.root o
  | .session s next => ActionSweep.Main.converse disk.root s next
