import ActionSweep.Git.Config
import ActionSweep.Git.Staged
import ActionSweep.Files.Disk

/-
The repositories of git: a folder with objects, references and a head, mostly named `.git`, or a file of
that name which points to such a folder; and the list of staged files that git shows in a folder.
-/

namespace ActionSweep.Git

/-- Whether a folder has what every repository has beside its head. -/
def hasStores (disk : Disk) (folder : Path) : Bool :=
  disk.leadsToFolder (folder.under "objects").text && disk.leadsToFolder (folder.under "refs").text

/-- What the head of a repository says, or where it links to. -/
inductive Head
  | content (bytes : Bytes)
  | link (target : Text)
deriving Repr, DecidableEq

/-- The head of a repository, links not followed. -/
def head? (disk : Disk) (folder : Path) : Option Head :=
  match disk.resolve .entry (folder.under "HEAD").text with
  | .ok (.found _ (.file b)) => some (.content b)
  | .ok (.found _ (.link t)) => some (.link t)
  | _ => none

/-- The characters of a head that count. -/
def headSize : Nat := 255

/-- The digits of the shortest name of a commit. -/
def commitSize : Nat := 40

/-- Whether a head leads to a reference or names a commit. -/
def Head.isValid : Head → Bool
  | link target => ("refs/" : Text).isPrefixOf target
  | content bytes =>
    let t := (bytes.take headSize).map fun b => Char.ofNat b.toNat
    let commit := t.take commitSize
    match Text.dropBeginning? "ref:" t with
    | some rest => ("refs/" : Text).isPrefixOf (rest.dropWhile Config.isSpace)
    | none => commit.length = commitSize && commit.all fun c => (Json.hexDigit? c).isSome

/-- Whether a folder is a repository. -/
def isRepository (disk : Disk) (folder : Path) : Bool :=
  hasStores disk folder && (head? disk folder).any Head.isValid

/-- What git opens in a folder: a repository, and where the folder is below the top of the work tree. -/
structure Opened where
  repository : Path
  below : List Text
deriving Repr, DecidableEq

/-- The path in a file that points to a repository. -/
def pointer? (content : Text) : Option Text :=
  (Text.dropBeginning? "gitdir: " content).filter fun t => !t.isEmpty

/-- The folder itself and those above it, nearest first. -/
def folderAndAbove (folder : Path) : List Path :=
  (List.range (folder.parts.length + 1)).map fun n =>
    ⟨folder.anchor, folder.parts.take (folder.parts.length - n)⟩

/-- What git opens in `folder` because of the folder `at_`, which is `folder` or above it. Nothing is said
if there is no repository here; a file that points to none ends the search. -/
def openAt? (disk : Disk) (folder at_ : Path) : Option (Option Opened) :=
  let git := at_.under ".git"
  let below := folder.parts.drop at_.parts.length
  match disk.read git.text with
  | .ok bytes =>
    some ((pointer? ((Utf8.lossy bytes).trimRight fun c => c = '\n' || c = '\r')).bind fun t =>
      let repository := at_.under t
      if isRepository disk repository then some ⟨repository, below⟩ else none)
  | .error _ =>
    if isRepository disk git then some (some ⟨git, below⟩)
    else if isRepository disk at_ then some (some ⟨at_, []⟩)
    else none

/-- What git opens in a folder. -/
def open? (disk : Disk) (folder : Path) : Option Opened :=
  ((folderAndAbove folder).findSome? (openAt? disk folder)).join

/-- The settings in a file; a file that is missing has none. -/
def settings? (disk : Disk) (path : Path) : Option (List ConfigEntry) :=
  match disk.read path.text with
  | .ok bytes => (Config.entries? (Utf8.lossy bytes)).filter fun es => es.all Config.isAccepted
  | .error (.file f) => if f.problem.isAbsence then some [] else none
  | .error _ => none

/-- The settings of the user. -/
def userSettings? (disk : Disk) : Option (List ConfigEntry) := do
  let home := Path.ofText disk.around.home
  return (← settings? disk (home.under ".config/git/config")) ++
    (← settings? disk (home.under ".gitconfig"))

/-- Where a folder is below the top of the work tree of what was opened in it, if the settings of the
repository say something about that. A bare repository has no top, and a folder outside counts as top. -/
def Opened.place? (disk : Disk) (opened : Opened) (folder : Path) (settings : List ConfigEntry) :
    Option (List Text) :=
  let settings := Config.aboutFormat settings
  if Config.isOn settings "core.bare" false then some []
  else match (Config.last? settings "core.worktree").join with
    | none => some opened.below
    | some t =>
      let top := opened.repository.under t
      if !t.isEmpty && disk.leadsToFolder top.text then
        match disk.realPath top with
        | .ok top => some ((top.parts.isPrefixOf? folder.parts).getD [])
        | .error _ => none
      else none

/-- The paths of the staged files of a repository; none if their list is damaged. -/
def staged? (disk : Disk) (repository : Path) : Option (List Bytes) :=
  match disk.read (repository.under "index").text with
  | .ok bytes => stagedPaths? bytes
  | .error (.file f) => if f.problem = .notFound then some [] else none
  | .error _ => none

/-- The lines with the staged files below a folder without links, as git lists them there; none if it
cannot. -/
def listing? (disk : Disk) (folder : Path) : Option (List Text) := do
  let opened ← open? disk folder
  let settings ← (settings? disk (opened.repository.under "config")).filter Config.isKnownFormat
  let user ← userSettings? disk
  let place ← opened.place? disk folder settings
  let quotesWide := Config.isOn (user ++ settings) "core.quotepath" true
  return ((← staged? disk opened.repository).filterMap (below? place)).flatMap
    (nameLines quotesWide)

end ActionSweep.Git
