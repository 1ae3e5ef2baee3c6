import ActionSweep.Session.Routes

/-
A session from its beginning to its end, given the lines that are typed.
-/

namespace ActionSweep

namespace Dialog

/-- Saves the result in a file. -/
def saveResult (name : Text) : Dialog Next := do
  let s ← get
  files (s.result.save name s.plan.now)
  sayIn (.of .green) ("Results saved to " ++ name)
  mainMenu

/-- Goes on with what was chosen in the main menu. -/
def choose : MenuEntry → Dialog Next
  | .actions => actionList
  | .routes => checkRoutes
  | .folders => folderList
  | .ignored => ignoredActionList
  | .saving => pure (.ask .resultFile)
  | .deletion => announceDeletion .mainMenu
  | .leaving => do
    sayIn (.of .green) "Goodbye!"
    return .leave

/-- Shows the summary and the main menu. -/
def welcome : Dialog Next := do
  let s ← get
  say (s.result.summaryText s.ignored.keys.length)
  mainMenu

/-- Goes on with a line typed as the answer to a question. -/
def answer (line : Text) : Screen → Dialog Next
  | .mainMenu => do withOption .mainMenu (← get).menu line choose
  | .actions => actionCommand line
  | .filterMenu => withOption .filterMenu ActionFilter.offered line setFilter
  | .ignoredActions => ignoredActionCommand line
  | .ignoredRoutes scan => ignoredRouteCommand scan line
  | .resultFile => saveResult (orProposed line proposedResultFile)
  | .confirmDeletion origin =>
    withYesNo (.confirmDeletion origin) false line (confirmDeletion origin)
  | .confirmBackup origin => withYesNo (.confirmBackup origin) false line (confirmBackup origin)
  | .backupFolder origin => do
    deleteMarked origin (some (orProposed line (← get).proposedBackup))
  | .confirmCleanup origin deleted folders =>
    withYesNo (.confirmCleanup origin deleted folders) true line
      (confirmCleanup origin deleted folders)
  | .confirmFolders folders =>
    withYesNo (.confirmFolders folders) false line (confirmFolders folders)
  | .routes scan => routeCommand scan line
  | .confirmRoutes scan paths =>
    withYesNo (.confirmRoutes scan paths) false line (confirmRoutes scan paths)

end Dialog

/-- How a session ends: by a choice, because no more lines come, or with a fault. -/
inductive Ending
  | left
  | abandoned
  | failed (f : Fault)

namespace Session

/-- Writes a question. -/
def asked (s : Session) (screen : Screen) : Session :=
  { s with console := s.console.put (s.console.shown (screen.prompt s)) }

/-- Writes a typed line behind the question. -/
def typed (s : Session) (line : Text) : Session :=
  { s with console := s.console.put (line ++ ['\n']) }

/-- Says that a session ends because no more lines come. -/
def abandoned (s : Session) : Session := { s with console := s.console.warn "Aborted!" }

/-- Runs a session on the lines that are typed. -/
def run (s : Session) : List Text → Next → Ending × Session
  | _, .leave => (.left, s)
  | [], .ask screen => (.abandoned, (s.asked screen).abandoned)
  | line :: lines, .ask screen =>
    match Dialog.answer line screen ((s.asked screen).typed line) with
    | .ok next s => run s lines next
    | .error f s => (.failed f, s)

/-- A session at its beginning. -/
def start (plan : SessionPlan) (ignored ignoredRoutes : IgnoreList) (disk : Disk)
    (console : Console) (scanner : Scanner) (result : ScanResult) : Session where
  plan := plan
  disk := disk
  console := console
  scanner := scanner
  result := result
  marked := []
  filter := .safeOnly
  ignored := ignored
  ignoredRoutes := ignoredRoutes

end Session

end ActionSweep
