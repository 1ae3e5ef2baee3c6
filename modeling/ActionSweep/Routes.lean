import ActionSweep.Scan
import ActionSweep.Value.Same
import ActionSweep.Json.Writer

/-
The routing table: routes whose page, action or layout does not exist, and their removal.
-/

namespace ActionSweep

/-- What a route names that does not exist. -/
inductive RouteTarget
  | page
  | exec
  | layout
deriving Repr, DecidableEq

namespace RouteTarget

def label : RouteTarget → Text
  | page => "missing_page"
  | exec => "missing_exec"
  | layout => "missing_layout"

/-- The sentence about a missing file. -/
def complaint (target : RouteTarget) (file : Text) : Text :=
  match target with
  | page => "Page file not found: " ++ file
  | exec => "Server action not found: " ++ file
  | layout => "Layout file not found: " ++ file

end RouteTarget

/-- A file that a route names and that does not exist. -/
structure RouteIssue where
  target : RouteTarget
  expectedPath : Text
deriving Repr, DecidableEq

def RouteIssue.message (i : RouteIssue) : Text := i.target.complaint i.expectedPath

/-- A route with issues. -/
structure DeadRoute where
  path : Value
  route : List (Text × Value)
  issues : List RouteIssue

/-- The outcome of a check of the routing table; `found` is false if there is no table. -/
structure RouteScan where
  found : Bool
  total : Nat
  dead : List DeadRoute

def RouteScan.valid (s : RouteScan) : Int := s.total - s.dead.length

/-- A project and its routing table. -/
structure RouteTable where
  project : Path
  file : Path

namespace RouteTable

/-- The table of a project at a path relative to it. -/
def new (project : Path) (routesFile : Text) : RouteTable := ⟨project, project.under routesFile⟩

/-- The fields of the table file, which has to hold a JSON object. -/
def fields (table : RouteTable) (disk : Disk) : Except Fault (List (Text × Value)) :=
  match disk.readJson table.file with
  | .ok (.object fields) => .ok fields
  | .ok _ => .error (.structured (some table.file.text) "expected a JSON object")
  | .error f =>
    if f.isValue then
      .error (.structured (some table.file.text) ("invalid JSON: " ++ f.message))
    else .error f

/-- The routes of a table: its entry for them, or none if that entry counts as false. -/
def routesOf (fields : List (Text × Value)) : Value :=
  let v := Value.fieldD fields "routes"
  if v.truthy then v else .list []

/-! ## Checking -/

/-- The issue that a file does not exist, if so. -/
def missing (table : RouteTable) (disk : Disk) (target : RouteTarget) (file : Text) :
    Except Fault (List RouteIssue) := do
  if ← disk.present (table.project.under file).text then return [] else return [⟨target, file⟩]

/-- The view file of a page or layout entry. -/
def viewFile (folder : Text) (v : Value) : Text := folder ++ v.inWords ++ ".ejs"

/-- The file that an exec entry names, if it names one. -/
def execFile (v : Value) : Except Fault (Option Text) :=
  ((v.asText "strip").map Key.routeFile).mapError .misuse

/-- The issues of a route: its page, then its action, then its layout. -/
def issues (table : RouteTable) (disk : Disk) (route : List (Text × Value)) :
    Except Fault (List RouteIssue) := do
  let page := Value.fieldD route "page"
  let a ← if page.truthy then table.missing disk .page (viewFile "views/" page) else pure []
  let exec := Value.fieldD route "exec"
  let b ← if exec.truthy then
      match ← execFile exec with
      | some file => table.missing disk .exec file
      | none => pure []
    else pure []
  let layout := Value.fieldD route "layout"
  let c ← if layout.truthy then table.missing disk .layout (viewFile "views/layouts/" layout)
    else pure []
  return a ++ b ++ c

/-- The dead route that an entry of the table is, if it is one. -/
def dead? (table : RouteTable) (disk : Disk) : Value → Except Fault (Option DeadRoute)
  | .object route => do
    let issues ← table.issues disk route
    if issues.isEmpty then return none
    else return some ⟨Value.fieldD route "path", route, issues⟩
  | _ => .ok none

/-- Checks all routes. -/
def scan (table : RouteTable) (disk : Disk) : Except Fault RouteScan := do
  if !(← disk.present table.file.text) then return ⟨false, 0, []⟩
  let routes := routesOf (← table.fields disk)
  let total ← routes.length.mapError .misuse
  let entries ← routes.items.mapError .misuse
  let dead ← entries.mapM (table.dead? disk)
  return ⟨true, total, dead.filterMap id⟩

/-! ## Removing -/

/-- Whether an entry of the table is a route with one of some paths. -/
def hasPath (paths : List Value) : Value → Except Misuse Bool
  | .object route => (Value.fieldD route "path").memberOf paths
  | _ => .ok false

/-- Removes the routes with some paths and writes the table back. The answer is the number of
entries removed. -/
def delete (table : RouteTable) (paths : List Value) : FileWork Nat := do
  FileWork.ask fun _ => (paths.forM Value.hashable).mapError .misuse
  let fields ← FileWork.ask table.fields
  let entries ← FileWork.ask fun _ => (routesOf fields).items.mapError .misuse
  let listed ← FileWork.ask fun _ => (entries.mapM (hasPath paths)).mapError .misuse
  let kept := ((entries.zip listed).filter (!·.2)).map (·.1)
  let fields := Value.putField "routes" (.list kept) fields
  match table.file.withExtension? ".tmp" with
  | none => throw (.noName table.file.text)
  | some beside => FileWork.replaceFile beside table.file (Json.render (.object fields) ++ ['\n'])
  return entries.length - kept.length

end RouteTable

end ActionSweep
