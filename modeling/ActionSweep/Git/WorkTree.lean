import ActionSweep.Git.Repository

/-
The work tree that a project lies in, and which of its files git does not track. The search for the work
tree goes by the names in folders; whether what it finds is in order is left to git, which then lists
the staged files.
-/

namespace ActionSweep.Git

/-- A work tree: its top folder, and the folder of its repository. -/
structure WorkTree where
  top : Path
  repository : Path
deriving Repr, DecidableEq

/-- Whether a folder has the shape of a repository. -/
def isShaped (disk : Disk) (folder : Path) : Bool :=
  hasStores disk folder &&
    ((disk.read (folder.under "HEAD").text).isOk || match head? disk folder with
      | some (.link t) => ("refs" : Text).isPrefixOf t
      | _ => false)

/-- How many files may point to each other. -/
def pointerLimit : Nat := 980

/-- The folder that a path leads to if it has the shape of a repository; a file at the path may point to
another path, over at most `n` files. -/
def pointed? (disk : Disk) : Nat → Path → Except Fault (Option Path)
  | 0, _ => throw .pointerCircle
  | n + 1, path => do
    if isShaped disk path then return some path
    match disk.read path.text with
    | .error (.file _) => return none
    | .error f => throw f
    | .ok bytes =>
      let content ← (Utf8.strict bytes).mapError .encoding
      match pointer? (content.unifyLines.trimRight isBlank) with
      | none => return none
      | some t =>
        let target := path.parent.under t
        pointed? disk n
          (if (Path.ofText t).isAbsolute then target
           else ⟨target.anchor, Disk.withoutDots target.parts⟩)

/-- The parts of a line between colons with a blank behind them. -/
def lineParts (part : Text) : Text → List Text
  | [] => [part]
  | ':' :: ' ' :: rest => part :: lineParts [] rest
  | c :: rest => lineParts (part ++ [c]) rest

/-- The path that lines of a name and a value give, up to the first line of another shape. -/
def namedPath? : List Text → Option Text
  | [] => none
  | line :: rest =>
    match lineParts [] (Text.trimBlank line) with
    | [name, value] => if name = "gitdir" then some value else namedPath? rest
    | _ => none

/-- The path of a repository that a file names, whether or not there is one. -/
def named? (disk : Disk) (path : Path) : Option Path :=
  match disk.read path.text with
  | .ok bytes =>
    (namedPath? (Text.split '\n' (Utf8.lossy bytes).unifyLines)).map fun t =>
      (Path.mk .root disk.workingFolder).under t
  | .error _ => none

/-- The work tree with its top at a folder, or just above a folder that is itself a repository. -/
def workTreeAt? (disk : Disk) (folder : Path) : Except Fault (Option WorkTree) := do
  if isShaped disk folder then return some ⟨folder.parent, folder⟩
  let git := folder.under ".git"
  let repository := (← pointed? disk pointerLimit git).or (named? disk git)
  return repository.map fun r => ⟨folder, r⟩

/-- The first work tree of some folders. -/
def firstWorkTree? (disk : Disk) : List Path → Except Fault (Option WorkTree)
  | [] => return none
  | folder :: rest => do
    match ← workTreeAt? disk folder with
    | some found => return some found
    | none => firstWorkTree? disk rest

/-- The work tree at or nearest above a place. -/
def workTree? (disk : Disk) (place : Path) : Except Fault (Option WorkTree) :=
  firstWorkTree? disk (folderAndAbove place)

/-- Whether a repository says that it has no work tree. -/
def isBare (disk : Disk) (repository : Path) : Bool :=
  match disk.read (repository.under "config").text with
  | .ok bytes => match Utf8.strict bytes with
    | .ok t => Config.isMarkedBare t
    | .error _ => false
  | .error _ => false

/-- The place of a file of a project relative to its work tree. -/
def placeIn (disk : Disk) (project top : Path) (file : Text) : Except Fault Text := do
  if file.contains '\x00' then throw .zeroInPath
  let path ← disk.realPath (project.under file)
  match Path.relativeTo? top path with
  | some p => return p.text
  | none => throw (.notBelow path.text top.text)

/-- The files that are not tracked, in order; none if the project is in no work tree. The search for the
work tree puts in what variables in the path of the project stand for. -/
def untracked (disk : Disk) (project : Path) (files : List Text) :
    Except Fault (Option (List Text)) := do
  let project ← disk.realPath project
  let start := disk.expandVariables project.text
  if !disk.isThere start then return none
  match ← workTree? disk (Path.ofText (disk.absolutePath start)) with
  | none => return none
  | some found =>
    if isBare disk found.repository then throw (.misuse (.notPath "NoneType"))
    let top ← disk.realPath found.top
    match listing? disk top with
    | none => return none
    | some lines =>
      let places ← files.mapM (placeIn disk project top)
      return some (((files.zip places).filter fun f => !lines.contains f.2).map (·.1))

end ActionSweep.Git
