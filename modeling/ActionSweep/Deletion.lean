import ActionSweep.Files.Disk

/-
Deleting the files of actions, one by one, after a copy of each has been made if a folder for copies
is given. A fault of one file is noted and does not stop the others.
-/

namespace ActionSweep

/-- What became of files that were to be deleted. -/
structure DeletionReport where
  deleted : List Text
  backedUp : List Text
  missing : List Text
  errors : List (Text × Text)
  dryRun : Bool
deriving Repr, DecidableEq

def DeletionReport.ok (r : DeletionReport) : Bool := r.errors.isEmpty

namespace Deletion

/-- What became of one file. -/
inductive Outcome
  | missing
  | wouldDelete
  | backupFailed (f : Fault)
  | backedUp (deletion : Option Fault)
  | direct (deletion : Option Fault)

/-- Notes the outcome of one file. -/
def note (r : DeletionReport) (path : Text) : Outcome → DeletionReport
  | .missing => { r with missing := r.missing ++ [path] }
  | .wouldDelete => { r with deleted := r.deleted ++ [path] }
  | .backupFailed f => { r with errors := r.errors ++ [(path, "backup failed: " ++ f.message)] }
  | .backedUp none =>
    { r with backedUp := r.backedUp ++ [path], deleted := r.deleted ++ [path] }
  | .backedUp (some f) =>
    { r with backedUp := r.backedUp ++ [path], errors := r.errors ++ [(path, f.message)] }
  | .direct none => { r with deleted := r.deleted ++ [path] }
  | .direct (some f) => { r with errors := r.errors ++ [(path, f.message)] }

/-- Work whose faults of the file system are answers. -/
def noting (work : FileWork Unit) : FileWork (Option Fault) := fun disk =>
  match work disk with
  | .ok () disk' => .ok none disk'
  | .error f disk' => if f.isFile then .ok (some f) disk' else .error f disk'

/-- Copies a file to its place below the folder for copies. -/
def backUp (source target : Path) : FileWork Unit := do
  FileWork.ensureFolder target.parent
  FileWork.copy source target

/-- Deletes one file. -/
def deleteOne (project : Path) (backup : Option Path) (dryRun : Bool) (path : Text) :
    FileWork Outcome := do
  let source := project.under path
  if !(← FileWork.ask (·.present source.text)) then return .missing
  if dryRun then return .wouldDelete
  let remove := noting (FileWork.change (·.removeFile source.text))
  match backup with
  | none => return .direct (← remove)
  | some folder =>
    match ← noting (backUp source (folder.under path)) with
    | some f => return .backupFailed f
    | none => return .backedUp (← remove)

/-- The folder for copies that a name stands for; the empty name stands for none. -/
def backupFolder (name : Option Text) : Option Path :=
  match name with
  | some t => if t.isEmpty then none else some (Path.ofText t)
  | none => none

/-- Deletes files given relative to the project, in order. -/
def delete (project : Path) (backup : Option Text) (dryRun : Bool) (paths : List Text) :
    FileWork DeletionReport :=
  paths.foldlM
    (fun r path => return note r path (← deleteOne project (backupFolder backup) dryRun path))
    ⟨[], [], [], [], dryRun⟩

end Deletion

end ActionSweep
