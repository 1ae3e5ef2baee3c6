import ActionSweep.Settings.Basic

/-
Settings files: where they are looked for, and how a YAML document becomes settings.
-/

namespace ActionSweep.Settings

open Yaml (Datum)

/-! ## Documents -/

/-- The sections of a document. -/
def sectionNames : List Text := ["scan", "ignore", "delete"]

/-- The entries of a mapping as settings, whose names have to be texts. -/
def named (entries : List (Value × Datum)) : Except Misuse (List (Text × Datum)) :=
  entries.mapM fun (k, d) => match k with
    | .text t => .ok (t, d)
    | _ => .error .nonTextNames

/-- The fields of a section. -/
def fieldsOf (entries : List (Value × Datum)) : Except Misuse (List (Text × Value)) :=
  (named entries).map fun fields => fields.map fun (name, d) => (name, d.toValue)

/-- The entry of a section, if there is one. -/
def entry? (entries : List (Value × Datum)) (name : Text) : Option Datum :=
  (entries.find? fun e => e.1.same (.text name)).map (·.2)

/-- A section of a document: standard without an entry or with null, understood if its entry is a
mapping, otherwise as given. -/
def sectionOf (entries : List (Value × Datum)) (name : Text) (standard : α)
    (read : List (Text × Value) → Except Misuse α) : Except Misuse (Section α) :=
  match entry? entries name with
  | none => .ok (.known standard)
  | some (.mapping fields) => do return .known (← read (← fieldsOf fields))
  | some (.leaf .null) => .ok (.known standard)
  | some d => .ok (.given d.toValue)

/-- Takes one general setting over; sections have been taken over before. -/
def set (s : Settings) (name : Text) (d : Datum) : Except Misuse Settings :=
  if name = "name" then .ok { s with name := d.toValue }
  else if name = "log_level" then .ok { s with logLevel := d.toValue }
  else if name = "host" then .ok { s with host := d.toValue }
  else if name = "port" then .ok { s with port := d.toValue }
  else if sectionNames.contains name then .ok s
  else .error (.unexpectedSetting "CleanupConfig" name)

/-- The settings in a mapping. -/
def ofEntries (disk : Disk) (entries : List (Value × Datum)) : Except Misuse Settings := do
  let scan ← sectionOf entries "scan" .standard ScanSettings.ofFields
  let ignore ← sectionOf entries "ignore" .standard IgnoreSettings.ofFields
  let delete ← sectionOf entries "delete" .standard (DeleteSettings.ofFields disk)
  (← named entries).foldlM (fun s f => s.set f.1 f.2)
    { Settings.standard with scan := scan, ignore := ignore, delete := delete }

/-- Whether a list has the name of a section among its items. -/
def namesSection (items : List Datum) : Bool :=
  items.any fun d => match d with
    | .leaf (.text t) => sectionNames.contains t
    | _ => false

/-- The settings in a document, none if the document is empty. -/
def ofDatum (disk : Disk) : Datum → Except Misuse (Option Settings)
  | .mapping [] => .ok none
  | .mapping entries => (ofEntries disk entries).map some
  | .list [] => .ok none
  | .list items => .error (if namesSection items then .badIndex "list" else .notMapping "list")
  | .leaf (.text t) =>
    if t.isEmpty then .ok none
    else if sectionNames.any (Text.occursIn · t) then .error (.badIndex "str")
    else .error (.notMapping "str")
  | .leaf (.other k _ _ (some items)) =>
    if items.isEmpty then .ok none
    else .error (
      if k ≠ "set" then .noMembership k
      else if namesSection (items.map .leaf) then .badIndex k
      else .notMapping k)
  | .leaf v => if v.truthy then .error (.noMembership v.kind) else .ok none

/-! ## Files -/

/-- The name of a settings file in a project. -/
def localName : Text := "action-cleanup.yaml"

/-- The places where settings are looked for, in order. -/
def places (disk : Disk) : List Text :=
  ["./" ++ localName, disk.around.home ++ "/.config/action-cleanup/config.yaml"]

/-- The settings in a file, none if there is no file or its document is empty. -/
def read? (disk : Disk) (place : Text) : Except Fault (Option Settings) := do
  let path := disk.absolutePath place
  if !disk.isThere path then return none
  let text ← (Utf8.strict (← disk.read path)).mapError .encoding
  let d ← (Datum.ofText text.unifyLines).mapError .yaml
  (ofDatum disk d).mapError .misuse

/-- The settings in the first of some files that has any, standard settings if none has. -/
def firstOf (disk : Disk) : List Text → Except Fault Settings
  | [] => .ok standard
  | place :: places => do
    match ← read? disk place with
    | some s => return s
    | none => firstOf disk places

/-- The settings for a run. A file that is asked for has to exist, and no other one is looked for. -/
def load (disk : Disk) (path : Text) : Except Fault Settings :=
  if path.isEmpty then firstOf disk (places disk)
  else if disk.isThere path then firstOf disk [path]
  else .error (.noSettingsFile path)

end ActionSweep.Settings
