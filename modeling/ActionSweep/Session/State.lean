import ActionSweep.Deletion
import ActionSweep.Git.WorkTree
import ActionSweep.Report.Save
import ActionSweep.Report.Summary
import ActionSweep.Settings.Basic

/-
A cleanup session: what it works on, what it knows, and the questions at which it waits for a line.
The session goes from question to question; everything between two of them is one step.
-/

namespace ActionSweep

/-- Which actions are listed. -/
inductive ActionFilter
  | safeOnly
  | all
  | ignored
deriving Repr, DecidableEq

namespace ActionFilter

def label : ActionFilter → Text
  | safeOnly => "safe-only"
  | all => "all"
  | ignored => "ignored"

/-- The filters in the order in which they are offered, with what is said about them. -/
def offered : List (ActionFilter × Text) :=
  [(safeOnly, "Safe to delete only"), (all, "All actions"), (ignored, "Ignored actions")]

end ActionFilter

/-- What stays the same during a session. -/
structure SessionPlan where
  project : Path
  settings : ScanSettings
  config : ScanConfig
  /-- The folders below which empty ones are looked for. -/
  roots : Except Fault (List Text)
  deletion : Section DeleteSettings
  dryRun : Bool
  now : Stamp

/-- The state of a session. -/
structure Session where
  plan : SessionPlan
  disk : Disk
  console : Console
  scanner : Scanner
  result : ScanResult
  /-- The keys of the actions marked for deletion. -/
  marked : List Text
  filter : ActionFilter
  ignored : IgnoreList
  ignoredRoutes : IgnoreList

/-- From where a deletion was started, and where the session goes on after it. -/
inductive Origin
  | mainMenu
  | actions
deriving Repr, DecidableEq

/-- The questions of a session, each with what is needed to go on from it. -/
inductive Screen
  | mainMenu
  | actions
  | filterMenu
  | ignoredActions
  | ignoredRoutes (scan : RouteScan)
  | resultFile
  | confirmDeletion (origin : Origin)
  | confirmBackup (origin : Origin)
  | backupFolder (origin : Origin)
  /-- Folders that a deletion has left empty. -/
  | confirmCleanup (origin : Origin) (deleted folders : List Text)
  | confirmFolders (folders : List Text)
  | routes (scan : RouteScan)
  | confirmRoutes (scan : RouteScan) (paths : List Value)

/-- What comes next: a question, or the end. -/
inductive Next
  | ask (screen : Screen)
  | leave

/-- A step of a session. What was done before a fault stays done. -/
abbrev Dialog := EStateM Fault Session

namespace Dialog

/-- Writes a line. -/
def say (t : Text) : Dialog Unit := modify fun s => { s with console := s.console.say t }

/-- Writes a line in a style. -/
def sayIn (style : Style) (t : Text) : Dialog Unit := say (style.apply t)

/-- Writes an empty line. -/
def skipLine : Dialog Unit := say []

/-- Works on the files. -/
def files (work : FileWork α) : Dialog α := fun s =>
  match work s.disk with
  | .ok a disk => .ok a { s with disk := disk }
  | .error f disk => .error f { s with disk := disk }

/-- Asks the files. -/
def look (question : Disk → Except Fault α) : Dialog α := files (FileWork.ask question)

/-- What is asked of settings that may have the wrong kind. -/
def need (x : Except Fault α) : Dialog α := fun s =>
  match x with
  | .ok a => .ok a s
  | .error f => .error f s

/-- Elements with their numbers, from one. -/
def numbered (xs : List α) : List (Nat × α) := (List.range' 1 xs.length).zip xs

/-- The beginning of a numbered line. -/
def label (n : Nat) : Text := (Text.ofNat n).padLeft 3 ++ ". "

/-- How many items a preview shows. -/
def previewLimit : Nat := 10

/-- Lists the first of some items. -/
def preview (items : List Text) : Dialog Unit := do
  (numbered (items.take previewLimit)).forM fun (n, item) =>
    say (label n ++ (Style.of .red).apply item)
  if previewLimit < items.length then
    sayIn (.of .brightBlack) ("     ... and " ++ Text.ofNat (items.length - previewLimit) ++ " more")

end Dialog

namespace Session

def isMarked (s : Session) (key : Text) : Bool := s.marked.contains key

/-- The actions that are listed. Ignored actions are listed on their own only. -/
def visible (s : Session) : List Action :=
  s.result.actions.filter fun a =>
    let ignored := s.ignored.isIgnored (.text a.key)
    match s.filter with
    | .ignored => ignored
    | .all => !ignored
    | .safeOnly => !ignored && a.confidence = .safeToDelete

/-- The actions that are marked. -/
def targets (s : Session) : List Action := s.result.actions.filter fun a => s.isMarked a.key

/-- The files of the actions that are marked. -/
def targetFiles (s : Session) : List Text := s.targets.map (·.file)

/-- The dead routes of a check that are not ignored. -/
def openRoutes (s : Session) (scan : RouteScan) : List DeadRoute :=
  scan.dead.filter fun d => !s.ignoredRoutes.isIgnored d.path

end Session

end ActionSweep
