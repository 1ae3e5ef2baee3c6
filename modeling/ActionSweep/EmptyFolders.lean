import ActionSweep.Files.Disk
import ActionSweep.ScanResult

/-
Folders that hold no files: finding them below the action folders, and removing them.
-/

namespace ActionSweep

/-- Whether a folder holds nothing but folders of which the same is true. Links count as content. -/
def Dir.holdsNoFile : Dir → Bool
  | .empty => true
  | .file _ _ _ => false
  | .link _ _ _ => false
  | .folder _ d rest => d.holdsNoFile && rest.holdsNoFile

/-- The folders below a folder that hold no file, each after those inside it. -/
def Dir.emptyFolders (path : Path) : Dir → List Path
  | .empty => []
  | .file _ _ rest => rest.emptyFolders path
  | .link _ _ rest => rest.emptyFolders path
  | .folder n d rest =>
    d.emptyFolders (path.under n) ++ (if d.holdsNoFile then [path.under n] else []) ++
      rest.emptyFolders path

/-- What became of folders that were to be removed. -/
structure FolderDeletion where
  deleted : List Text
  skipped : List Text
  errors : List (Text × Text)
deriving Repr, DecidableEq

namespace EmptyFolders

/-- A path that is too long cannot be asked about. -/
def askAbout (path : Path) : Except Fault Unit :=
  if Disk.pathLimit < (Utf8.encode path.text).length then .error (Disk.refuse .nameTooLong path.text)
  else .ok ()

/-- Whether the folder at a path holds no file, entry by entry up to the first one that tells. -/
def lookInto (path : Path) : Dir → Except Fault Bool
  | .empty => .ok true
  | .file n _ _ | .link n _ _ => do
    askAbout (path.under n)
    return false
  | .folder n d rest => do
    askAbout (path.under n)
    if ← lookInto (path.under n) d then lookInto path rest else return false

/-- Whether there is a folder at a path and it holds no file. What cannot be listed is no such folder. -/
def looksEmpty (disk : Disk) (path : Path) : Except Fault Bool :=
  match disk.list path.text with
  | .ok d => lookInto path d
  | .error _ => .ok false

/-- Whether a path leads to a folder without files; no if a path in it is too long to tell. -/
def isEmptyFolder (disk : Disk) (path : Path) : Bool :=
  match looksEmpty disk path with
  | .ok b => b
  | .error _ => false

/-- A folder as results show it. -/
def shown (project path : Path) : Except Fault EmptyFolder :=
  match Path.relativeTo? project path with
  | some relative => .ok ⟨path.text, relative.text⟩
  | none => .error (.notBelow path.text project.text)

/-- Asks of everything in a folder whether it is a folder. -/
def askIn (disk : Disk) (path : Path) : Dir → Except Fault Unit
  | .empty => .ok ()
  | .file n _ rest | .link n _ rest | .folder n _ rest => do
    let _ ← disk.isFolder (path.inside n).text
    askIn disk path rest

/-- Asks the same of everything below a folder, in the order of a walk. -/
def askBelow (disk : Disk) (path : Path) : Dir → Except Fault Unit
  | .empty => .ok ()
  | .file n _ rest | .link n _ rest => do
    let _ ← disk.isFolder (path.inside n).text
    askBelow disk path rest
  | .folder n d rest => do
    let _ ← disk.isFolder (path.inside n).text
    askBelow disk (path.inside n) d
    askBelow disk path rest

/-- The folders without files below one action folder, which is never one of them itself. What is directly in it is
looked through before any of the folders in it. -/
def findBelow (disk : Disk) (root : Path) : Except Fault (List Path) := do
  if ← disk.isFolder root.text then
    let d ← disk.list root.text
    askIn disk root d
    askBelow disk root d
    return d.emptyFolders root
  else return []

/-- The folders without files below the action folders. -/
def find (disk : Disk) (project : Path) (roots : List Text) : Except Fault (List EmptyFolder) := do
  let found ← roots.mapM fun root => findBelow disk (project.under root)
  found.flatten.mapM (shown project)

/-- Removes the folders below a folder, each after those inside it. A folder is listed before anything in it goes. -/
def removeBelow (path : Path) : Dir → FileWork Unit
  | .empty => pure ()
  | .file _ _ rest => removeBelow path rest
  | .link _ _ rest => removeBelow path rest
  | .folder n d rest => do
    let _ ← FileWork.ask (·.list (path.under n).text)
    removeBelow (path.under n) d
    FileWork.change (·.removeFolder (path.under n).text)
    removeBelow path rest

/-- Removes a folder and the folders inside it. -/
def removeTree (path : Path) : FileWork Unit := do
  let d ← FileWork.ask (·.list path.text)
  removeBelow path d
  FileWork.change (·.removeFolder path.text)

/-- What is done with one folder: it is looked at again right before it is removed. -/
inductive Outcome
  | deleted
  | skipped
deriving Repr, DecidableEq

def deleteOne (path : Path) : FileWork Outcome := do
  if !(← FileWork.ask (·.present path.text)) then return .skipped
  else if !(← FileWork.ask (looksEmpty · path)) then return .skipped
  else
    removeTree path
    return .deleted

/-- The number of parts of a path, the anchor included. -/
def depth (p : Path) : Nat := p.parts.length + (if p.isAbsolute then 1 else 0)

/-- Deeper paths first; paths of one depth keep their order. -/
def deepestFirst (paths : List Path) : List Path := paths.mergeSort fun p q => depth q ≤ depth p

/-- Removes one more folder. A fault of the file system is noted, any other fault ends the work. -/
def deleteNext : Except Fault FolderDeletion × Disk → Path → Except Fault FolderDeletion × Disk
  | (.error f, disk), _ => (.error f, disk)
  | (.ok r, disk), path =>
    match deleteOne path disk with
    | .ok .deleted disk' => (.ok { r with deleted := r.deleted ++ [path.text] }, disk')
    | .ok .skipped disk' => (.ok { r with skipped := r.skipped ++ [path.text] }, disk')
    | .error f disk' =>
      if f.isFile then (.ok { r with errors := r.errors ++ [(path.text, f.message)] }, disk')
      else (.error f, disk')

/-- Removes folders, the deepest first. -/
def delete (paths : List Text) (disk : Disk) : Except Fault FolderDeletion × Disk :=
  (deepestFirst (paths.map Path.ofText)).foldl deleteNext (.ok ⟨[], [], []⟩, disk)

end EmptyFolders

end ActionSweep
