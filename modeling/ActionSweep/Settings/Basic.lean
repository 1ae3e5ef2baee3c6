import ActionSweep.Settings.Scan
import ActionSweep.Yaml.Datum

/-
The settings of the tool: general ones, and three sections. A section that is no mapping is kept as
it was given and is a fault only when something in it is asked for.
-/

namespace ActionSweep

/-- Where the lists of ignored keys are kept, as given. -/
structure IgnoreSettings where
  directory : Value
  actionsFile : Value
  routesFile : Value

/-- What happens to deleted files, as given: where copies go by default. -/
structure DeleteSettings where
  backupDir : Value

/-- A section of the settings: one that was understood, or what stands in its place. -/
inductive Section (α : Type)
  | known (settings : α)
  | given (v : Value)

/-- All settings. -/
structure Settings where
  name : Value
  logLevel : Value
  host : Value
  port : Value
  scan : Section ScanSettings
  ignore : Section IgnoreSettings
  delete : Section DeleteSettings

/-- The settings of a section; `name` is what is asked of it. -/
def Section.require (s : Section α) (name : Text) : Except Misuse α :=
  match s with
  | known settings => .ok settings
  | given v => .error (.noAttribute v.kind name)

/-- The settings of a section for work that takes standard settings in place of what counts as false. -/
def Section.requireOr (s : Section α) (standard : α) (name : Text) : Except Misuse α :=
  match s with
  | known settings => .ok settings
  | given v => if v.truthy then .error (.noAttribute v.kind name) else .ok standard

def Section.toValue (write : α → Value) : Section α → Value
  | known settings => write settings
  | given v => v

namespace IgnoreSettings

def standard : IgnoreSettings :=
  ⟨.text ".action-cleanup", .text "ignore-list.json", .text "ignored-routes.json"⟩

/-- Takes one setting over. -/
def set (s : IgnoreSettings) (name : Text) (v : Value) : Except Misuse IgnoreSettings :=
  if name = "directory" then .ok { s with directory := v }
  else if name = "actions_file" then .ok { s with actionsFile := v }
  else if name = "routes_file" then .ok { s with routesFile := v }
  else .error (.unexpectedSetting "IgnoreConfig" name)

def ofFields (fields : List (Text × Value)) : Except Misuse IgnoreSettings :=
  fields.foldlM (fun s f => s.set f.1 f.2) standard

/-- The path of a list of a project: in the folder for lists, which is relative to the project unless
it is absolute. -/
def place (s : IgnoreSettings) (disk : Disk) (project : Path) (file : Value) :
    Except Misuse Path := do
  let folder ← match s.directory with
    | .text t => pure (project.under (disk.expandHome t))
    | v => throw (.notPath v.kind)
  return folder.under (← file.asPathPart)

def toValue (s : IgnoreSettings) : Value :=
  .object [("directory", s.directory), ("actions_file", s.actionsFile),
    ("routes_file", s.routesFile)]

end IgnoreSettings

namespace DeleteSettings

def standard : DeleteSettings := ⟨.null⟩

/-- A folder for copies, with the home folder written out; null and false stand for none. -/
def ofBackupDir (disk : Disk) (v : Value) : Except Misuse DeleteSettings :=
  match v with
  | .text t => .ok ⟨.text (disk.expandHome t)⟩
  | v => if v.truthy then .error (.notPath v.kind) else .ok ⟨v⟩

/-- The folder for copies that a setting gives. -/
def backupDirOf (f : Text × Value) : Except Misuse Value :=
  if f.1 = ("backup_dir" : Text) then .ok f.2
  else .error (.unexpectedSetting "DeleteConfig" f.1)

def ofFields (disk : Disk) (fields : List (Text × Value)) : Except Misuse DeleteSettings := do
  ofBackupDir disk (← fields.foldlM (fun _ f => backupDirOf f) .null)

/-- The folder for copies, if there is one. -/
def folder? (s : DeleteSettings) : Option Text :=
  match s.backupDir with
  | .text t => if t.isEmpty then none else some t
  | _ => none

def toValue (s : DeleteSettings) : Value := .object [("backup_dir", s.backupDir)]

end DeleteSettings

namespace Settings

def standard : Settings where
  name := .text "Server Action Cleanup"
  logLevel := .text "info"
  host := .text "localhost"
  port := .int 8080
  scan := .known .standard
  ignore := .known .standard
  delete := .known .standard

/-- All settings under their names. -/
def toValue (s : Settings) : Value :=
  .object [("name", s.name), ("log_level", s.logLevel), ("host", s.host), ("port", s.port),
    ("scan", s.scan.toValue ScanSettings.toValue),
    ("ignore", s.ignore.toValue IgnoreSettings.toValue),
    ("delete", s.delete.toValue DeleteSettings.toValue)]

end Settings

end ActionSweep
