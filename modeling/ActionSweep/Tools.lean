import ActionSweep.Report.Document
import ActionSweep.Settings.Basic

/-
The scans as tools for other programs: each takes a project and answers with one JSON object, also if
something goes wrong.
-/

namespace ActionSweep

/-- The tools that other programs can call. -/
inductive Tool
  | serverActions
  | deadRoutes
  | emptyFolders
deriving Repr, DecidableEq

namespace Tool

def name : Tool → Text
  | serverActions => "scan_server_actions"
  | deadRoutes => "scan_dead_routes"
  | emptyFolders => "find_empty_folders"

/-- What other programs are told about a tool. -/
def description : Tool → Text
  | serverActions => "Scan a project's app/api and app/lib server actions and report which ones are referenced from views, JSON configuration and scripts. Actions with no references are classified safe-to-delete."
  | deadRoutes => "Check app/config/routes.json for routes whose page, exec or layout file does not exist."
  | emptyFolders => "List folders under app/api and app/lib that contain no files."

def all : List Tool := [serverActions, deadRoutes, emptyFolders]

/-- The tool of a name. -/
def ofName? (t : Text) : Option Tool := all.find? fun tool => tool.name = t

/-- The answer of a tool that has done its work. -/
def success (fields : List (Text × Value)) : Value :=
  .object (("status", .text "success") :: fields)

/-- The answer of a tool that has not. -/
def failure (reason : Text) : Value :=
  .object [("status", .text "error"), ("error", .text reason)]

def scanActions (settings : ScanSettings) (disk : Disk) (project : Path) : Except Fault Value := do
  let scanner := Scanner.new project (← settings.config)
  return success (← (scanner.scan disk).1).toFields

def scanRoutes (settings : ScanSettings) (disk : Disk) (project : Path) : Except Fault Value := do
  let scan ← (← settings.routeTable project).scan disk
  if scan.found then return success scan.toFields
  else return failure (settings.routesFile.inWords ++ " not found")

def findFolders (settings : ScanSettings) (disk : Disk) (project : Path) : Except Fault Value := do
  let roots ← (ScanSettings.folders settings.actionDirs).mapError .misuse
  let folders ← EmptyFolders.find disk project roots
  return success [("emptyFolders", .list (folders.map EmptyFolder.toValue))]

/-- Calls a tool for a project. -/
def call (tool : Tool) (settings : ScanSettings) (disk : Disk) (project : Path) : Value :=
  let answer := match tool with
    | serverActions => scanActions settings disk project
    | deadRoutes => scanRoutes settings disk project
    | emptyFolders => findFolders settings disk project
  match answer with
  | .ok v => v
  | .error f => failure f.message

end Tool

end ActionSweep
