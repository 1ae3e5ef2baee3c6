import ActionSweep.Session.Folders

/-
Deleting the marked actions in a session: announced, confirmed, with a copy if wanted, and followed by
a new scan.
-/

namespace ActionSweep.Dialog

/-- Shows the files that are to be deleted and what git knows of them, and asks whether to go on, unless
nothing may be deleted. -/
def askDeletion (s : Session) (origin : Origin) : Dialog Next := do
  preview s.targetFiles
  if s.plan.dryRun then
    sayIn (.of .blue) "Dry run: nothing was deleted."
    back origin
  else
    match ← look fun disk => Git.untracked disk s.plan.project s.targetFiles with
    | none =>
      sayIn (.of .yellow)
        "Project is not a git repository; deleted files cannot be restored with git."
    | some [] => pure ()
    | some files =>
      sayIn (.of .yellow)
        (Text.ofNat files.length ++ " of these files are not tracked by git:")
      preview files
    return .ask (.confirmDeletion origin)

/-- Announces the deletion of the marked actions, and asks whether to go on. -/
def announceDeletion (origin : Origin) : Dialog Next := do
  let s ← get
  if s.marked.isEmpty then
    sayIn (.of .yellow) "No actions marked for deletion."
    back origin
  else
    sayIn (.boldOf .red)
      ("\nAbout to delete " ++ Text.ofNat s.targetFiles.length ++ " server actions:")
    askDeletion s origin

/-- Takes the result of a new scan over; if the tool itself reports a fault of the project, the
result without the deleted actions. Marks of actions that are gone go too. -/
def rescan (deleted : List Text) : Dialog Unit := do
  let s ← get
  match s.scanner.scan s.disk with
  | (.ok r, scanner) => set { s with scanner := scanner, result := r }
  | (.error f, scanner) =>
    set { s with scanner := scanner }
    if f.isOwn then set { s with scanner := scanner, result := s.result.without deleted }
    else throw f
  modify fun s => { s with marked := s.marked.filter fun k => s.result.actions.any (·.key = k) }
  let s ← get
  say (s.result.summaryText s.ignored.keys.length)

/-- The end of a deletion: a new scan, and back to where it was started. -/
def finishDeletion (origin : Origin) (deleted : List Text) : Dialog Next := do
  rescan deleted
  back origin

/-- Offers to remove the folders that are empty now. -/
def offerCleanup (origin : Origin) (deleted : List Text) : Dialog Next := do
  let folders ← findFolders
  if folders.isEmpty then finishDeletion origin deleted
  else
    sayIn (.of .yellow) ("\nFound " ++ Text.ofNat folders.length ++ " empty folders:")
    preview (folders.map (·.relativePath))
    return .ask (.confirmCleanup origin deleted (folders.map (·.path)))

/-- Says what became of the files. -/
def sayDeletion (report : DeletionReport) (backup : Option Text) : Dialog Unit := do
  if report.ok then
    sayIn (.of .green) ("Deleted " ++ Text.ofNat report.deleted.length ++ " server actions")
  else
    sayIn (.of .yellow) ("Deleted " ++ Text.ofNat report.deleted.length ++ " files, but " ++
      Text.ofNat report.errors.length ++ " failed:")
    report.errors.forM fun (path, error) => sayIn (.of .red) ("  " ++ path ++ ": " ++ error)
  if !report.backedUp.isEmpty then
    say ("Backed up " ++ Text.ofNat report.backedUp.length ++ " files to " ++ backup.getD [])

/-- What follows when the files of the actions marked in `s` have been deleted: the marks of what is gone
go too, and the folders are looked at. -/
def afterDeletion (s : Session) (origin : Origin) (backup : Option Text) (report : DeletionReport) :
    Dialog Next := do
  sayDeletion report backup
  let gone := s.targets.filter fun a =>
    report.deleted.contains a.file || report.missing.contains a.file
  let deleted := gone.map (·.key)
  modify fun s => { s with marked := s.marked.filter fun k => !deleted.contains k }
  offerCleanup origin deleted

/-- Deletes the marked actions, after a copy if there is a folder for copies. -/
def deleteMarked (origin : Origin) (backup : Option Text) : Dialog Next := do
  let s ← get
  let report ← files (Deletion.delete s.plan.project backup false s.targetFiles)
  afterDeletion s origin backup report

/-- Goes on with a deletion that was confirmed or not. -/
def confirmDeletion (origin : Origin) (yes : Bool) : Dialog Next := do
  if !yes then
    sayIn (.of .green) "Deletion cancelled"
    back origin
  else
    let plan := (← get).plan
    let settings ← need ((plan.deletion.require "backup_dir").mapError .misuse)
    match settings.folder? with
    | some folder => deleteMarked origin (some folder)
    | none => return .ask (.confirmBackup origin)

/-- Goes on after the question whether to make copies. -/
def confirmBackup (origin : Origin) (yes : Bool) : Dialog Next :=
  if yes then pure (.ask (.backupFolder origin)) else deleteMarked origin none

/-- Removes the folders that a deletion has left empty, if that was confirmed. -/
def confirmCleanup (origin : Origin) (deleted folders : List Text) (yes : Bool) : Dialog Next := do
  if yes then removeFolders folders
  finishDeletion origin deleted

end ActionSweep.Dialog
