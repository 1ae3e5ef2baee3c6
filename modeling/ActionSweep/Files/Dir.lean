import ActionSweep.Text.Utf8

/-
The content of a folder: files, links and folders with their names, in the order of the names. A
whole file tree is the content of its root.
-/

namespace ActionSweep

/-- The content of a folder, one named entry after the other. -/
inductive Dir
  | empty
  | file (name : Text) (bytes : Bytes) (rest : Dir)
  | link (name : Text) (target : Text) (rest : Dir)
  | folder (name : Text) (inside : Dir) (rest : Dir)
deriving Repr, DecidableEq, Inhabited

/-- What can stand under a name. -/
inductive Entry
  | file (bytes : Bytes)
  | link (target : Text)
  | folder (inside : Dir)
deriving Repr, DecidableEq

namespace Dir

/-- An entry in front of others. -/
def cons (name : Text) (e : Entry) (rest : Dir) : Dir :=
  match e with
  | .file b => .file name b rest
  | .link t => .link name t rest
  | .folder d => .folder name d rest

/-- The entry of a name. -/
def get? (name : Text) : Dir → Option Entry
  | empty => none
  | file n b rest => if n = name then some (.file b) else rest.get? name
  | link n t rest => if n = name then some (.link t) else rest.get? name
  | folder n d rest => if n = name then some (.folder d) else rest.get? name

/-- Sets the entry of a name, at its place in the order. -/
def put (name : Text) (e : Entry) : Dir → Dir
  | empty => cons name e empty
  | file n b rest =>
    if n = name then cons name e rest
    else if name < n then cons name e (file n b rest) else file n b (rest.put name e)
  | link n t rest =>
    if n = name then cons name e rest
    else if name < n then cons name e (link n t rest) else link n t (rest.put name e)
  | folder n d rest =>
    if n = name then cons name e rest
    else if name < n then cons name e (folder n d rest) else folder n d (rest.put name e)

/-- Removes the entry of a name. -/
def erase (name : Text) : Dir → Dir
  | empty => empty
  | file n b rest => if n = name then rest else file n b (rest.erase name)
  | link n t rest => if n = name then rest else link n t (rest.erase name)
  | folder n d rest => if n = name then rest else folder n d (rest.erase name)

/-- The names with their entries, in order. -/
def entries : Dir → List (Text × Entry)
  | empty => []
  | file n b rest => (n, .file b) :: rest.entries
  | link n t rest => (n, .link t) :: rest.entries
  | folder n d rest => (n, .folder d) :: rest.entries

def isEmpty : Dir → Bool
  | empty => true
  | _ => false

/-! ## Entries by path -/

/-- The entry at a path below a folder, through folders only; the folder itself at the empty path. -/
def find? : List Text → Dir → Option Entry
  | [], d => some (.folder d)
  | [name], d => d.get? name
  | name :: path, d =>
    match d.get? name with
    | some (.folder inside) => find? path inside
    | _ => none

/-- Sets the entry at a path, if folders lead to it. -/
def putAt : List Text → Entry → Dir → Dir
  | [], _, d => d
  | [name], e, d => d.put name e
  | name :: path, e, d =>
    match d.get? name with
    | some (.folder inside) => d.put name (.folder (putAt path e inside))
    | _ => d

/-- Removes the entry at a path. -/
def eraseAt : List Text → Dir → Dir
  | [], d => d
  | [name], d => d.erase name
  | name :: path, d =>
    match d.get? name with
    | some (.folder inside) => d.put name (.folder (eraseAt path inside))
    | _ => d

/-- Everything below a folder with its path: an entry, then what is inside it. -/
def contents (path : List Text) : Dir → List (List Text × Entry)
  | empty => []
  | file n b rest => (path ++ [n], .file b) :: rest.contents path
  | link n t rest => (path ++ [n], .link t) :: rest.contents path
  | folder n d rest => (path ++ [n], .folder d) :: (d.contents (path ++ [n]) ++ rest.contents path)

end Dir

end ActionSweep
