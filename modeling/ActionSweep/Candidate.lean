import ActionSweep.FileKind
import ActionSweep.Pattern.Basic

/-
The files of a project that are searched for references: which folders are walked for a set of
patterns, which files in them fit a category, and in which order they come.
-/

namespace ActionSweep

/-- What a file is searched as. -/
inductive Category
  | markup
  | structured
  | script
deriving Repr, DecidableEq

def Category.label : Category → Text
  | markup => "markup"
  | structured => "structured"
  | script => "script"

/-- Which files are candidates: a set of patterns for each category, tried in this order, and one for
what is left out; and the folders in which the walks start. -/
structure CandidateRules where
  markup : PatternSet
  structured : PatternSet
  script : PatternSet
  exclude : PatternSet
  bases : Except Fault (List Text)

namespace CandidateRules

/-- The folder in which everything that a pattern matches lies: its first part, or the project (the
empty name) if that part has wildcards. -/
def baseOf (pattern : Text) : Text :=
  let head := (pattern.dropWhile (· = '/')).takeWhile (· ≠ '/')
  if head.any fun c => c = '*' || c = '?' || c = '[' then [] else head

/-- The folders for some patterns, in order; the project alone if any of them needs it. -/
def basesOf (patterns : List Text) : List Text :=
  let bases := patterns.map baseOf
  if bases.contains [] then [[]] else Text.sort bases.eraseDups

/-- Whether a path is left out; a folder is asked about with a slash at its end. -/
def isExcluded (rules : CandidateRules) (path : Text) (folder : Bool) : Bool :=
  rules.exclude.contains (if folder then path.trimRight (· = '/') ++ ['/'] else path)

/-- The category of a file by its path relative to the project. -/
def classify (rules : CandidateRules) (path : Text) : Option Category :=
  if rules.isExcluded path false then none
  else if rules.markup.contains path then some .markup
  else if rules.structured.contains path then some .structured
  else if rules.script.contains path then some .script
  else none

/-- A name below a folder given relative to the project. -/
def joined (folder name : Text) : Text := if folder.isEmpty then name else folder ++ '/' :: name

end CandidateRules

namespace Candidate

open CandidateRules (joined)

/-- The files directly in a folder. A link counts as a file unless it leads to a folder. -/
def filesIn (isFolderLink : Text → Bool) (path : Text) : Dir → List Text
  | .empty => []
  | .file n _ rest => joined path n :: filesIn isFolderLink path rest
  | .link n _ rest =>
    if isFolderLink (joined path n) then filesIn isFolderLink path rest
    else joined path n :: filesIn isFolderLink path rest
  | .folder _ _ rest => filesIn isFolderLink path rest

/-- The files inside the folders of a folder, without the folders that are not entered. -/
def filesBelow (isFolderLink entered : Text → Bool) (path : Text) : Dir → List Text
  | .empty => []
  | .file _ _ rest => filesBelow isFolderLink entered path rest
  | .link _ _ rest => filesBelow isFolderLink entered path rest
  | .folder n d rest =>
    (if entered (joined path n) then
      filesIn isFolderLink (joined path n) d ++ filesBelow isFolderLink entered (joined path n) d
     else []) ++ filesBelow isFolderLink entered path rest

/-- The files of a folder: those directly in it before those in its folders. -/
def walk (isFolderLink entered : Text → Bool) (path : Text) (d : Dir) : List Text :=
  filesIn isFolderLink path d ++ filesBelow isFolderLink entered path d

/-- The files that the walk from one base meets. -/
def filesFrom (rules : CandidateRules) (disk : Disk) (project : Path) (base : Text) :
    Except Fault (List Text) := do
  let start := project.under base
  if ← disk.isFolder start.text then
    let d ← disk.list start.text
    let path := match Path.relativeTo? project start with
      | some p => if p.parts.isEmpty then [] else p.text
      | none => base
    return walk (fun p => disk.leadsToFolder (project.under p).text)
      (fun p => !rules.isExcluded p true) path d
  else return []

/-- The files that all walks meet, each once. -/
def filesMet (rules : CandidateRules) (disk : Disk) (project : Path) : Except Fault (List Text) := do
  let bases ← rules.bases
  return (← bases.mapM (filesFrom rules disk project)).flatten.eraseDups

/-- The candidates of a project with their categories, in the order of the walks. -/
def all (rules : CandidateRules) (disk : Disk) (project : Path) :
    Except Fault (List (Text × Category)) := do
  return (← filesMet rules disk project).filterMap fun path => do
    let category ← rules.classify path
    if FileKind.isTextFile disk (project.under path).text then some (path, category) else none

end Candidate

end ActionSweep
