import ActionSweep.Session.Deletion

/-
The commands on listed actions, and the lists of what is ignored.
-/

namespace ActionSweep.Dialog

/-- Marks an action, or takes its mark away. -/
def toggleMark (key : Text) : Dialog Unit :=
  modify fun s =>
    { s with marked := if s.isMarked key then s.marked.erase key else s.marked ++ [key] }

/-- Works on the list of ignored actions. -/
def changeIgnored (work : Stamp → IgnoreWork Unit) : Dialog Unit := fun s =>
  match work s.plan.now ⟨s.ignored, s.disk⟩ with
  | .ok () k => .ok () { s with ignored := k.list, disk := k.disk }
  | .error f k => .error f { s with ignored := k.list, disk := k.disk }

/-- Works on the list of ignored routes. -/
def changeIgnoredRoutes (work : Stamp → IgnoreWork Unit) : Dialog Unit := fun s =>
  match work s.plan.now ⟨s.ignoredRoutes, s.disk⟩ with
  | .ok () k => .ok () { s with ignoredRoutes := k.list, disk := k.disk }
  | .error f k => .error f { s with ignoredRoutes := k.list, disk := k.disk }

/-- Ignores an action, which takes its mark away, or stops ignoring it. -/
def toggleIgnored (key : Text) : Dialog Unit := do
  if (← get).ignored.isIgnored (.text key) then changeIgnored (IgnoreWork.remove (.text key))
  else
    changeIgnored (IgnoreWork.add (.text key))
    modify fun s => { s with marked := s.marked.erase key }

/-- Shows the references to an action. -/
def showReferences (a : Action) : Dialog Unit := do
  sayIn .bright ("References to " ++ a.key ++ ":")
  if a.references.isEmpty then say "  none found"
  a.references.forM fun r =>
    say ("  " ++ r.source ++ " [" ++ r.provenance.label ++ "] " ++ r.original)

/-- Does something with the items that the numbers of a command name. -/
def forNumbered (rest : Text) (items : List α) (act : α → Dialog Unit) : Dialog Unit := do
  (← positions rest items.length).forM fun i =>
    match items[i]? with
    | some a => act a
    | none => pure ()

/-- Does something with the listed actions that the numbers of a command name. -/
def forActions (rest : Text) (act : Action → Dialog Unit) : Dialog Next := do
  forNumbered rest (← get).visible act
  actionList

/-- A command at the list of actions. An empty line goes back. -/
def actionCommand (line : Text) : Dialog Next := do
  let line := orProposed line "b"
  let (verb, rest) := command line
  if verb = "b" then mainMenu
  else if verb = "f" then filterMenu
  else if verb = "d" then announceDeletion .actions
  else if verb = "m" then forActions rest fun a => toggleMark a.key
  else if verb = "i" then forActions rest fun a => toggleIgnored a.key
  else if verb = "r" then forActions rest showReferences
  else
    unknownCommand line
    actionList

/-- Lists other actions than before. -/
def setFilter (filter : ActionFilter) : Dialog Next := do
  modify fun s => { s with filter := filter }
  actionList

/-- A command at a list of ignored keys: stops ignoring some, or goes back. -/
def ignoredCommand (keys : List Value) (remove : Value → Dialog Unit) (again leave : Dialog Next)
    (line : Text) : Dialog Next := do
  let (verb, rest) := command (orProposed line "b")
  if verb = "u" then
    forNumbered rest keys remove
    again
  else leave

def ignoredActionCommand (line : Text) : Dialog Next := do
  ignoredCommand (← get).ignored.keys (fun key => changeIgnored (IgnoreWork.remove key))
    ignoredActionList mainMenu line

def ignoredRouteCommand (scan : RouteScan) (line : Text) : Dialog Next := do
  ignoredCommand (← get).ignoredRoutes.keys (fun key => changeIgnoredRoutes (IgnoreWork.remove key))
    (ignoredRouteList scan) (routeList scan) line

end ActionSweep.Dialog
