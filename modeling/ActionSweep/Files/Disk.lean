import ActionSweep.Files.Dir
import ActionSweep.Files.Path
import ActionSweep.Fault

/-
A file tree with a working folder, and how a path is resolved in it: part by part, through links,
with `..` for the folder above the one reached so far. A path may pass forty links.
-/

namespace ActionSweep

/-- What a run finds around it besides files: the home folder as text, and how deep brackets may nest
in a document that it reads. That depends on the room that the reader has, which is enough for the
brackets of a report. -/
structure Surroundings where
  home : Text
  nesting : Nat
  roomy : 5 ≤ nesting
deriving Repr, DecidableEq

/-- How deep brackets may nest where nothing else is said. -/
def Surroundings.standardNesting : Nat := 960

/-- Where only the home folder is given, the room is the standard one. -/
instance : Coe Text Surroundings := ⟨fun home => ⟨home, Surroundings.standardNesting, by decide⟩⟩

/-- A file tree, the place of the working folder in it, and what is around it. -/
structure Disk where
  root : Dir
  workingFolder : List Text
  around : Surroundings
deriving Repr, DecidableEq

/-- Where a path leads: to an entry at a place without links, or to a free name in a folder. -/
inductive Place
  | found (place : List Text) (entry : Entry)
  | free (folder : List Text) (name : Text)
deriving Repr, DecidableEq

namespace Disk

/-- The longest name of an entry and the longest path, in bytes. -/
def nameLimit : Nat := 255

def pathLimit : Nat := 4095

/-- The parts that are walked through. A slash (an empty part) or a dot at the end asks for a folder. -/
def steps (t : Text) : List Text :=
  Path.partsOf t ++
    if ['/'].isSuffixOf t then [[]]
    else if (['/', '.'] : Text).isSuffixOf t || t = ['.'] then [['.']] else []

/-- What is asked for at the end of a path. -/
inductive Aim
  /-- The entry itself, also if it is a link. -/
  | entry
  /-- What stands behind links. -/
  | target
  /-- What stands behind links, to be written as a file; a slash at the end is a fault whatever is there. -/
  | writing
deriving Repr, DecidableEq

/-- Walks from a place without links through the parts of a path up to the first link that has to be
followed; `jump` goes on from there. -/
def walk (root : Dir) (aim : Aim) (jump : List Text → List Text → Except FileProblem Place) :
    List Text → List Text → Except FileProblem Place
  | here, [] =>
    match root.find? here with
    | some e => .ok (.found here e)
    | none => .error .notFound
  | here, part :: parts =>
    if part.isEmpty || part = ['.'] then walk root aim jump here parts
    else if part = ['.', '.'] then walk root aim jump here.dropLast parts
    else if aim = .writing && parts = [[]] then .error .isAFolder
    else if nameLimit < (Utf8.encode part).length then .error .nameTooLong
    else match root.find? (here ++ [part]) with
      | none => if parts.isEmpty then .ok (.free here part) else .error .notFound
      | some (.folder _) => walk root aim jump (here ++ [part]) parts
      | some (.file b) =>
        if parts.isEmpty then .ok (.found (here ++ [part]) (.file b)) else .error .notAFolder
      | some (.link t) =>
        if parts.isEmpty && aim = .entry then .ok (.found (here ++ [part]) (.link t))
        else jump (if ['/'].isPrefixOf t then [] else here) (steps t ++ parts)

/-- Resolves the parts of a path from a place, following at most `links` links. -/
def resolveParts (root : Dir) (aim : Aim) :
    Nat → List Text → List Text → Except FileProblem Place
  | 0, here, parts => walk root aim (fun _ _ => .error .tooManyLinks) here parts
  | links + 1, here, parts => walk root aim (resolveParts root aim links) here parts

/-- How many links a path may pass. -/
def linkLimit : Nat := 40

/-- Resolves a path. -/
def resolve (disk : Disk) (aim : Aim) (path : Text) : Except Fault Place :=
  if path.contains '\x00' then .error .zeroInPath
  else
    let found := if path.isEmpty then .error .notFound
      else if pathLimit < (Utf8.encode path).length then .error .nameTooLong
      else resolveParts disk.root aim linkLimit
        (if ['/'].isPrefixOf path then [] else disk.workingFolder) (steps path)
    found.mapError fun problem => .file ⟨problem, path, none⟩

/-! ## Questions -/

/-- A question whose answer is no for paths that lead nowhere. Names that are too long are faults. -/
def test (disk : Disk) (path : Text) (p : Entry → Bool) : Except Fault Bool :=
  match disk.resolve .target path with
  | .ok (.found _ e) => .ok (p e)
  | .ok (.free _ _) => .ok false
  | .error (.file f) => if f.problem.isAbsence then .ok false else .error (.file f)
  | .error .zeroInPath => .ok false
  | .error f => .error f

/-- Whether there is something at a path, behind links. -/
def present (disk : Disk) (path : Text) : Except Fault Bool := disk.test path fun _ => true

/-- Whether a path leads to a folder, behind links. -/
def isFolder (disk : Disk) (path : Text) : Except Fault Bool :=
  disk.test path fun e => match e with
    | .folder _ => true
    | _ => false

/-- Whether there is something at a path; no for paths that cannot even be asked about. -/
def isThere (disk : Disk) (path : Text) : Bool :=
  match disk.present path with
  | .ok b => b
  | .error _ => false

/-- Whether a path leads to a folder; no for paths that cannot even be asked about. -/
def leadsToFolder (disk : Disk) (path : Text) : Bool :=
  match disk.isFolder path with
  | .ok b => b
  | .error _ => false

/-- A refusal of an operation on a path. -/
def refuse (problem : FileProblem) (path : Text) : Fault := .file ⟨problem, path, none⟩

/-- The content of a file. -/
def read (disk : Disk) (path : Text) : Except Fault Bytes := do
  match ← disk.resolve .target path with
  | .found _ (.file b) => return b
  | .found _ (.folder _) => throw (refuse .isAFolder path)
  | .found _ (.link _) => throw (refuse .tooManyLinks path)
  | .free _ _ => throw (refuse .notFound path)

/-- The content of a folder. -/
def list (disk : Disk) (path : Text) : Except Fault Dir := do
  match ← disk.resolve .target path with
  | .found _ (.folder d) => return d
  | .found _ _ => throw (refuse .notAFolder path)
  | .free _ _ => throw (refuse .notFound path)

/-! ## Changes -/

def setRoot (disk : Disk) (root : Dir) : Disk := { disk with root := root }

/-- Writes a file: over an existing one, behind links, or as a new one. -/
def write (disk : Disk) (path : Text) (bytes : Bytes) : Except Fault Disk := do
  match ← disk.resolve .writing path with
  | .found place (.file _) => return disk.setRoot (disk.root.putAt place (.file bytes))
  | .found _ (.folder _) => throw (refuse .isAFolder path)
  | .found _ (.link _) => throw (refuse .tooManyLinks path)
  | .free folder name => return disk.setRoot (disk.root.putAt (folder ++ [name]) (.file bytes))

/-- Makes an empty folder in an existing one. -/
def makeFolder (disk : Disk) (path : Text) : Except Fault Disk := do
  match ← disk.resolve .entry path with
  | .found _ _ => throw (refuse .alreadyExists path)
  | .free folder name => return disk.setRoot (disk.root.putAt (folder ++ [name]) (.folder .empty))

/-- Makes a link. -/
def makeLink (disk : Disk) (path target : Text) : Except Fault Disk := do
  match ← disk.resolve .entry path with
  | .found _ _ => throw (refuse .alreadyExists path)
  | .free folder name => return disk.setRoot (disk.root.putAt (folder ++ [name]) (.link target))

/-- Removes a file or a link. -/
def removeFile (disk : Disk) (path : Text) : Except Fault Disk := do
  match ← disk.resolve .entry path with
  | .found _ (.folder _) => throw (refuse .isAFolder path)
  | .found place _ => return disk.setRoot (disk.root.eraseAt place)
  | .free _ _ => throw (refuse .notFound path)

/-- Why the folder at a path cannot be removed if the path ends without a name of that folder. -/
def nameless? (path : Text) : Option FileProblem :=
  match (Path.partsOf path).getLast? with
  | none => if ['/'].isPrefixOf path then some .busy else some .invalid
  | some part => if part = ['.', '.'] then some .notEmpty else none

/-- Removes an empty folder, which the path has to name. -/
def removeFolder (disk : Disk) (path : Text) : Except Fault Disk := do
  match ← disk.resolve .entry path with
  | .found place (.folder inside) =>
    match nameless? path with
    | some problem => throw (refuse problem path)
    | none =>
      if inside.isEmpty then return disk.setRoot (disk.root.eraseAt place)
      else throw (refuse .notEmpty path)
  | .found _ _ => throw (refuse .notAFolder path)
  | .free _ _ => throw (refuse .notFound path)

/-- Moves an entry to a place, in place of a file or link that is there. -/
def moveEntry (disk : Disk) (place : List Text) (entry : Entry) : Place → Except FileProblem Disk
  | .free folder name => .ok (disk.setRoot ((disk.root.eraseAt place).putAt (folder ++ [name]) entry))
  | .found target there =>
    match entry, there with
    | .folder _, .folder _ => .error .notEmpty
    | .folder _, _ => .error .notAFolder
    | _, .folder _ => .error .isAFolder
    | _, _ =>
      if place = target then .ok disk
      else .ok (disk.setRoot ((disk.root.eraseAt place).putAt target entry))

/-- Moves what a path leads to, to another path. Both paths have to end with names. -/
def move (disk : Disk) (source target : Text) : Except Fault Disk :=
  let refuse (problem : FileProblem) : Except Fault Disk :=
    .error (.file ⟨problem, source, some target⟩)
  match disk.resolve .entry source, disk.resolve .entry target with
  | .error (.file f), _ | _, .error (.file f) => refuse f.problem
  | .error f, _ | _, .error f => .error f
  | .ok start, .ok goal =>
    if (nameless? source).isSome || (nameless? target).isSome then refuse .busy
    else match start with
      | .free _ _ => refuse .notFound
      | .found place entry =>
        match disk.moveEntry place entry goal with
        | .ok disk' => .ok disk'
        | .error problem => refuse problem

/-! ## Paths without links -/

/-- The place a path leads to with every link replaced by its target. Parts that lead nowhere stay.
`entered` holds the links whose targets are being looked up; at a link that is one of them the walk
stops, and it and all further parts stay as they are. -/
def realParts (root : Dir) : Nat → List (List Text) → List Text → List Text → List Text × Bool
  | 0, _, here, parts => (here ++ parts, false)
  | _ + 1, _, here, [] => (here, true)
  | n + 1, entered, here, part :: parts =>
    if part = ['.', '.'] then realParts root n entered here.dropLast parts
    else match root.find? (here ++ [part]) with
      | some (.link t) =>
        if entered.contains (here ++ [part]) then (here ++ part :: parts, false)
        else
          match realParts root n ((here ++ [part]) :: entered)
              (if ['/'].isPrefixOf t then [] else here) (Path.partsOf t) with
          | (place, true) => realParts root n entered place parts
          | (place, false) => (place ++ parts, false)
      | _ => realParts root n entered (here ++ [part]) parts

/-- More steps than the walk along a path of bounded length takes. -/
def realSteps : Nat := 100000

/-- Parts with two dots taken away together with the part before them. -/
def withoutDots (parts : List Text) : List Text :=
  parts.foldl (fun place part => if part = ['.', '.'] then place.dropLast else place ++ [part]) []

/-- The absolute path without links of a path. Links that lead back to themselves are a fault, unless
two dots take them away again. -/
def realPath (disk : Disk) (path : Path) : Except Fault Path :=
  match realParts disk.root realSteps [] (if path.isAbsolute then [] else disk.workingFolder)
      path.parts with
  | (parts, true) => .ok ⟨.root, parts⟩
  | (parts, false) =>
    let place : Path := ⟨.root, withoutDots parts⟩
    match disk.resolve .target place.text with
    | .error (.file f) =>
      if f.problem = .tooManyLinks then .error (.linkCircle place.text) else .ok place
    | _ => .ok place

/-- The absolute path of a text, with dots worked out on the text alone. -/
def absolutePath (disk : Disk) (t : Text) : Text :=
  let here := if ['/'].isPrefixOf t then [] else disk.workingFolder
  (Path.mk .root (withoutDots (here ++ Path.partsOf t))).text

/-- The home folder of a user: the one at work, who needs no name, and the one of the system. Homes of
others are not known. -/
def homeOf? (disk : Disk) (user : Text) : Option Text :=
  if user.isEmpty then some disk.around.home
  else if user = "root" then some "/root"
  else none

/-- A tilde at the beginning stands for the home folder of the user whose name follows it, as far as
that is known. -/
def expandHome (disk : Disk) (t : Text) : Text :=
  match t with
  | '~' :: rest =>
    match disk.homeOf? (rest.takeWhile (· ≠ '/')) with
    | some home => home ++ rest.dropWhile (· ≠ '/')
    | none => t
  | _ => t

/-- What a variable stands for in a path: the home folder, or the folders of programs. -/
def variableText? (disk : Disk) (name : Text) : Option Text :=
  if name = "HOME" then some disk.around.home
  else if name = "PATH" then some "/usr/local/bin:/usr/bin:/bin"
  else none

def isVariableChar (c : Char) : Bool := c.isAlphanum || c = '_'

/-- Puts in what variables stand for. A variable is a dollar sign and a name, bare or in braces; one that
is not set stays. The first `skip` characters belong to a variable that was dealt with. -/
def expandFrom (disk : Disk) (skip : Nat) : Text → Text
  | [] => []
  | c :: rest =>
    match skip with
    | n + 1 => disk.expandFrom n rest
    | 0 =>
      if c ≠ '$' then c :: disk.expandFrom 0 rest
      else
        let braced := ['\x7b'].isPrefixOf rest && rest.contains '\x7d'
        let name := if braced then (rest.drop 1).takeWhile (· ≠ '\x7d')
          else rest.takeWhile isVariableChar
        let size := if braced then name.length + 2 else name.length
        match disk.variableText? name with
        | some value => value ++ disk.expandFrom size rest
        | none => '$' :: rest.take size ++ disk.expandFrom size rest

def expandVariables (disk : Disk) (t : Text) : Text := disk.expandFrom 0 t

end Disk

/-- Work on a file tree that may end in a fault. What was done before a fault stays done. -/
abbrev FileWork := EStateM Fault Disk

namespace FileWork

/-- Asks the tree. -/
def ask (question : Disk → Except Fault α) : FileWork α := fun disk =>
  match question disk with
  | .ok a => .ok a disk
  | .error f => .error f disk

/-- Changes the tree, or leaves it as it is and fails. -/
def change (operation : Disk → Except Fault Disk) : FileWork Unit := fun disk =>
  match operation disk with
  | .ok disk' => .ok () disk'
  | .error f => .error f disk

/-- A fault that does not count if there is a folder at a path. -/
def unlessFolder (path : Path) (f : Fault) : FileWork Unit := fun disk =>
  match disk.isFolder path.text with
  | .ok true => .ok () disk
  | .ok false => .error f disk
  | .error f' => .error f' disk

/-- Makes a folder and the missing folders above it; a folder that is there is fine. -/
def makeFolders (path : Path) : Nat → FileWork Unit
  | 0 => fun disk =>
    match disk.makeFolder path.text with
    | .ok disk' => .ok () disk'
    | .error f => unlessFolder path f disk
  | n + 1 => fun disk =>
    match disk.makeFolder path.text with
    | .ok disk' => .ok () disk'
    | .error (.file f) =>
      if f.problem = .notFound then
        if path.parts.isEmpty then .error (.file f) disk
        else
          match makeFolders path.parent n disk with
          | .error f disk' => .error f disk'
          | .ok () disk' =>
            match disk'.makeFolder path.text with
            | .ok disk'' => .ok () disk''
            | .error f => unlessFolder path f disk'
      else unlessFolder path (.file f) disk
    | .error f => .error f disk

/-- Makes a folder with all folders above it. -/
def ensureFolder (path : Path) : FileWork Unit := makeFolders path path.parts.length

/-- Whether two paths lead to the same entry. -/
def sameEntry (disk : Disk) (a b : Text) : Bool :=
  match disk.resolve .target a, disk.resolve .target b with
  | .ok (.found p _), .ok (.found q _) => p = q
  | _, _ => false

/-- Writes a copy. What can only be the name of a folder that is missing has a fault of its own. -/
def writeCopy (target : Path) (bytes : Bytes) : FileWork Unit := fun disk =>
  match disk.write target.text bytes with
  | .ok disk' => .ok () disk'
  | .error (.file f) =>
    if f.problem = .isAFolder && !disk.isThere target.text then .error (.noFolder target.text) disk
    else .error (.file f) disk
  | .error f => .error f disk

/-- Copies a file; into a folder under its own name. -/
def copy (source target : Path) : FileWork Unit := fun disk =>
  let inside := disk.leadsToFolder target.text
  let target := if inside then ⟨target.anchor, target.parts ++ source.name?.toList⟩ else target
  if sameEntry disk source.text target.text then
    .error (.sameFile source.text target.text inside) disk
  else match disk.read source.text with
    | .error f => .error f disk
    | .ok bytes => writeCopy target bytes disk

/-- Writes a text to a file beside the one meant and moves it into place; after a fault the file
beside is removed. -/
def replaceFile (beside path : Path) (t : Text) : FileWork Unit := fun disk =>
  match (do change (·.write beside.text (Utf8.encode t)); change (·.move beside.text path.text) :
      FileWork Unit) disk with
  | .ok () disk' => .ok () disk'
  | .error f disk' =>
    match (do
      if ← ask (·.present beside.text) then change (·.removeFile beside.text) :
        FileWork Unit) disk' with
    | .ok () disk'' => .error f disk''
    | .error f' disk'' => .error f' disk''

end FileWork

end ActionSweep
