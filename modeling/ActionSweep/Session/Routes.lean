import ActionSweep.Session.Actions

/-
Dead routes in a session.
-/

namespace ActionSweep.Dialog

/-- The routing table of the project. -/
def routeTable : Dialog RouteTable := do
  let plan := (← get).plan
  need (plan.settings.routeTable plan.project)

/-- Checks the routing table and shows what is dead. -/
def checkRoutes : Dialog Next := do
  let table ← routeTable
  match table.scan (← get).disk with
  | .error f =>
    if f.isOwn then
      sayIn (.of .red) ("Routes scan failed: " ++ f.message)
      mainMenu
    else throw f
  | .ok scan =>
    if scan.found then routeList scan
    else
      sayIn (.of .yellow) "routes.json not found"
      mainMenu

/-- Announces the removal of routes, and asks whether to go on unless nothing may be removed. -/
def announceRemoval (scan : RouteScan) (paths : List Value) : Dialog Next := do
  if paths.isEmpty then routeList scan
  else
    sayIn (.boldOf .red)
      ("\nAbout to remove " ++ Text.ofNat paths.length ++ " routes from routes.json:")
    preview (paths.map Value.inWords)
    if (← get).plan.dryRun then
      sayIn (.of .blue) "Dry run: nothing was deleted."
      routeList scan
    else return .ask (.confirmRoutes scan paths)

/-- Removes routes, if that was confirmed, and checks the table again. -/
def confirmRoutes (scan : RouteScan) (paths : List Value) (yes : Bool) : Dialog Next := do
  if !yes then
    sayIn (.of .green) "Deletion cancelled"
    routeList scan
  else
    let table ← routeTable
    let removed ← files (table.delete paths)
    sayIn (.of .green) ("Removed " ++ Text.ofNat removed ++ " routes")
    routeList (← look table.scan)

/-- Ignores a dead route, unless its path says nothing. -/
def ignoreRoute (d : DeadRoute) : Dialog Unit :=
  if d.path.truthy then changeIgnoredRoutes (IgnoreWork.add d.path) else pure ()

/-- The routes at some positions. -/
def routesAt (dead : List DeadRoute) (positions : List Nat) : List DeadRoute :=
  positions.filterMap fun i => dead[i]?

/-- A command at the list of dead routes. An empty line goes back. -/
def routeCommand (scan : RouteScan) (line : Text) : Dialog Next := do
  let dead := (← get).openRoutes scan
  let line := orProposed line "b"
  let (verb, rest) := command line
  if verb = "b" then mainMenu
  else if verb = "i" then
    forNumbered rest dead ignoreRoute
    routeList scan
  else if verb = "u" then ignoredRouteList scan
  else if verb = "a" then announceRemoval scan (dead.map (·.path))
  else if verb = "d" then
    announceRemoval scan ((routesAt dead (← positions rest dead.length)).map (·.path))
  else
    unknownCommand line
    routeList scan

end ActionSweep.Dialog
