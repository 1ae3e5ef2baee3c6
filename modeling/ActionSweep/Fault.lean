import ActionSweep.Files.Fault
import ActionSweep.Json.Reader
import ActionSweep.Value.Misuse
import ActionSweep.Pattern.Glob
import ActionSweep.Text.Utf8
import ActionSweep.Yaml.Fault

/-
Everything that can go wrong, as causes, and the one place where they are put into words.
-/

namespace ActionSweep

/-- The states of a scanner. -/
inductive ScanState
  | idle
  | discovering
  | extracting
  | classified
  | failed
deriving Repr, DecidableEq

namespace ScanState

def label : ScanState → Text
  | idle => "idle"
  | discovering => "discovering"
  | extracting => "extracting"
  | classified => "classified"
  | failed => "failed"

def all : List ScanState := [idle, discovering, extracting, classified, failed]

end ScanState

/-- Why the action folders of a project cannot be gone through. -/
inductive ActionFolderProblem
  /-- None of them exists. -/
  | missing (folders : List Text)
  /-- One of them, or a folder in one, cannot be listed. -/
  | unlisted (folder : Text) (problem : FileProblem)
deriving Repr, DecidableEq

/-- Something that went wrong. -/
inductive Fault
  /-- The file system refuses an operation. -/
  | file (f : FileFault)
  /-- A path has a zero character. -/
  | zeroInPath
  /-- A file is to be copied onto itself; `inside` says whether only the folder of the copy was named. -/
  | sameFile (source target : Text) (inside : Bool)
  /-- A file is to be copied to a name that can only be that of a folder. -/
  | noFolder (path : Text)
  /-- Links lead back to themselves. -/
  | linkCircle (path : Text)
  /-- Files that point to repositories lead back to themselves. -/
  | pointerCircle
  /-- A path is not below another one. -/
  | notBelow (path base : Text)
  /-- A path has no last part. -/
  | noName (path : Text)
  /-- A file is not UTF-8. -/
  | encoding (f : Utf8Fault)
  /-- A text is not JSON. -/
  | json (f : JsonFault)
  /-- A text is not an integer. -/
  | numeral (f : NumeralFault)
  /-- A value has the wrong kind. -/
  | misuse (m : Misuse)
  /-- A pattern is refused. -/
  | pattern (f : PatternFault)
  /-- A name is none of the names of a group. -/
  | unknownName (name group : Text)
  /-- A structured file cannot be used. -/
  | structured (path : Option Text) (reason : Text)
  /-- There are no action folders to go through. -/
  | noActionFolders (problem : ActionFolderProblem) (project : Text)
  /-- The state of a scan cannot change in this way. -/
  | badTransition (source target : ScanState)
  /-- The settings file asked for does not exist. -/
  | noSettingsFile (path : Text)
  /-- A settings file is no usable document. -/
  | yaml (f : Yaml.YamlFault)

namespace Fault

/-- A path as it stands in messages about paths. -/
def pathShown (path : Text) : Text := "PosixPath(" ++ path.quoted ++ ")"

def message : Fault → Text
  | file f => f.message
  | zeroInPath => "embedded null byte"
  | sameFile s t inside =>
    pathShown s ++ " and " ++ (if inside then t.quoted else pathShown t) ++ " are the same file"
  | noFolder p => "Directory does not exist: " ++ p
  | linkCircle p => "Symlink loop from " ++ p.quoted
  | pointerCircle => "maximum recursion depth exceeded while calling a Python object"
  | notBelow p b => p.quoted ++ " is not in the subpath of " ++ b.quoted ++
      " OR one path is relative and the other is absolute."
  | noName p => pathShown p ++ " has an empty name"
  | encoding f => f.message
  | json f => f.message
  | numeral f => f.message
  | misuse m => m.message
  | pattern f => f.message
  | unknownName n g => n.quoted ++ " is not a valid " ++ g
  | structured (some p) reason => p ++ ": " ++ reason
  | structured none reason => reason
  | noActionFolders (.missing folders) project =>
    "No action directories (" ++ Text.join ", " folders ++ ") found under " ++ project
  | noActionFolders (.unlisted folder problem) _ =>
    "Could not read action directory " ++ folder ++ ": " ++ problem.words
  | badTransition s t => "Cannot move scan from " ++ s.label ++ " to " ++ t.label
  | noSettingsFile p => "Config file not found: " ++ p
  | yaml f => f.message

/-- Faults of the file system, which most work on files survives. -/
def isFile : Fault → Bool
  | file _ | sameFile _ _ _ | noFolder _ | noSettingsFile _ => true
  | _ => false

/-- Faults of a value: text that does not say what it should. -/
def isValue : Fault → Bool
  | json f => match f.problem with
    | .nesting _ => false
    | _ => true
  | yaml f => f.isValue
  | encoding _ | numeral _ | zeroInPath | notBelow _ _ | noName _ | unknownName _ _ => true
  | pattern (.invalid _) => true
  | _ => false

/-- Faults that the tool itself reports about a project. -/
def isOwn : Fault → Bool
  | structured _ _ | noActionFolders _ _ | badTransition _ _ => true
  | _ => false

/-- Values of the wrong kind, other than values that lack an attribute. -/
def isKind : Fault → Bool
  | misuse m => !m.isAttribute
  | _ => false

end Fault

end ActionSweep
