import ActionSweep.Session.Screens

/-
Empty folders in a session.
-/

namespace ActionSweep.Dialog

/-- The empty folders at this moment. -/
def findFolders : Dialog (List EmptyFolder) := do
  let plan := (← get).plan
  look fun disk => do EmptyFolders.find disk plan.project (← plan.roots)

/-- Removes folders and says what became of them. -/
def removeFolders (folders : List Text) : Dialog Unit := do
  let report ← files fun disk =>
    match EmptyFolders.delete folders disk with
    | (.ok r, disk) => .ok r disk
    | (.error f, disk) => .error f disk
  if report.errors.isEmpty then
    sayIn (.of .green) ("Deleted " ++ Text.ofNat report.deleted.length ++ " empty folders")
  else
    sayIn (.of .yellow) ("Deleted " ++ Text.ofNat report.deleted.length ++ " folders, " ++
      Text.ofNat report.errors.length ++ " failed")
    report.errors.forM fun (path, error) => sayIn (.of .red) ("  " ++ path ++ ": " ++ error)

/-- Shows the empty folders, and asks whether to remove them unless nothing may be removed. -/
def folderList : Dialog Next := do
  let folders ← findFolders
  if folders.isEmpty then
    sayIn (.of .green) "No empty folders found."
    mainMenu
  else
    sayIn (.of .yellow) ("\n" ++ Text.ofNat folders.length ++ " empty folders:")
    preview (folders.map (·.relativePath))
    if (← get).plan.dryRun then
      sayIn (.of .blue) "Dry run: nothing was deleted."
      mainMenu
    else return .ask (.confirmFolders (folders.map (·.path)))

/-- Removes the folders shown, if that was confirmed, and looks again. -/
def confirmFolders (folders : List Text) (yes : Bool) : Dialog Next := do
  if yes then removeFolders folders
  let left ← findFolders
  modify fun s => { s with result := { s.result with emptyFolders := left } }
  mainMenu

end ActionSweep.Dialog
