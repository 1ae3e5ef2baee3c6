import ActionSweep.Session.Question

/-
What a session shows before it asks.
-/

namespace ActionSweep.Dialog

/-- Shows options under a title. -/
def showOptions (title : Text) (options : List (α × Text)) : Dialog Unit := do
  skipLine
  sayIn .bright title
  (numbered options).forM fun (n, option) =>
    say ("  " ++ Text.ofNat n ++ ". " ++ option.2)

def mainMenu : Dialog Next := do
  showOptions "What would you like to do?" (← get).menu
  return .ask .mainMenu

def filterMenu : Dialog Next := do
  showOptions "Show which actions?" ActionFilter.offered
  return .ask .filterMenu

/-- A listed action: its number, its mark, its key and how many references it has. -/
def actionLine (s : Session) (n : Nat) (a : Action) : Text :=
  label n ++ (if s.isMarked a.key then (Style.of .red).apply "[x]" else "[ ]") ++ " " ++
    (Style.of (if a.confidence = .safeToDelete then .red else .yellow)).apply a.key ++ " " ++
    (Style.of .brightBlack).apply ("(" ++ Text.ofNat a.references.length ++ " refs)")

def actionList : Dialog Next := do
  let s ← get
  skipLine
  sayIn (.of .blue) ("Filter: " ++ s.filter.label)
  if s.visible.isEmpty then sayIn (.of .yellow) "No actions to show with current filter."
  (numbered s.visible).forM fun (n, a) => say (actionLine s n a)
  return .ask .actions

/-- Shows ignored keys, if there are any. -/
def showIgnored (keys : List Value) (what : Text) : Dialog Bool := do
  skipLine
  if keys.isEmpty then
    sayIn (.of .green) ("No ignored " ++ what ++ ".")
    return false
  else
    (numbered keys).forM fun (n, key) => say (label n ++ key.inWords)
    return true

def ignoredActionList : Dialog Next := do
  if ← showIgnored (← get).ignored.keys "actions" then return .ask .ignoredActions else mainMenu

/-- A dead route and its issues. -/
def routeLines (n : Nat) (d : DeadRoute) : List Text :=
  (label n ++ (Style.of .cyan).apply d.path.inWords) ::
    d.issues.map fun i => (Style.of .brightBlack).apply ("       " ++ i.message)

/-- Shows the dead routes. Without any, only ignored ones are a reason to stay. -/
def routeList (scan : RouteScan) : Dialog Next := do
  let s ← get
  let dead := s.openRoutes scan
  skipLine
  say (Text.ofNat scan.total ++ " routes, " ++ Text.ofNat scan.dead.length ++ " dead, " ++
    Text.ofNat s.ignoredRoutes.keys.length ++ " ignored")
  if dead.isEmpty then sayIn (.of .green) "No dead routes found!"
  if dead.isEmpty && s.ignoredRoutes.keys.isEmpty then mainMenu
  else
    (numbered dead).forM fun (n, d) => (routeLines n d).forM say
    return .ask (.routes scan)

def ignoredRouteList (scan : RouteScan) : Dialog Next := do
  if ← showIgnored (← get).ignoredRoutes.keys "routes" then return .ask (.ignoredRoutes scan)
  else routeList scan

/-- Goes back to where a deletion was started. -/
def back : Origin → Dialog Next
  | .mainMenu => mainMenu
  | .actions => actionList

end ActionSweep.Dialog
