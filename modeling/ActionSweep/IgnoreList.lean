import ActionSweep.Routes

/-
Lists of keys that are hidden from view, kept in a file. A list that is missing or damaged starts
afresh. Files give texts only; a key added in a session may be any value that a route has for a path.
-/

namespace ActionSweep

/-- The moment of a run, as files and pages show it. -/
structure Stamp where
  precise : Text
  plain : Text
deriving Repr, DecidableEq

/-- The keys of a list, and the file it is kept in. -/
structure IgnoreList where
  path : Path
  keys : List Value

namespace IgnoreList

def new (path : Path) : IgnoreList := ⟨path, []⟩

/-- The version of the file format. -/
def version : Text := "1.0.0"

/-- The keys that some values are: texts, each at its first place. -/
def keysOf (values : List Value) : List Value :=
  values.foldl (fun keys v => match v with
    | .text t => if keys.any (·.same (.text t)) then keys else keys ++ [.text t]
    | _ => keys) []

/-- The document of the file, none if there is no file or it cannot be understood. -/
def document (path : Path) (disk : Disk) : Except Fault (Option Value) := do
  if !(← disk.present path.text) then return none
  let read : Except Fault Value := do
    let text ← (Utf8.strict (← disk.read path.text)).mapError .encoding
    (Json.readWithin disk.around.nesting text.unifyLines).mapError .json
  match read with
  | .ok v => return some v
  | .error f => if f.isFile || f.isValue then return none else throw f

/-- The keys in a document: of a list its texts, of an object those of its entry for ignored keys. -/
def keysIn : Value → Except Misuse (List Value)
  | .list values => .ok (keysOf values)
  | .object fields =>
    let v := Value.fieldD fields "ignored"
    if v.truthy then v.items.map keysOf else .ok []
  | _ => .ok []

/-- Reads the list again from its file. -/
def load (l : IgnoreList) (disk : Disk) : Except Fault IgnoreList := do
  match ← document l.path disk with
  | none => return ⟨l.path, []⟩
  | some v => return ⟨l.path, ← (keysIn v).mapError .misuse⟩

/-- The document of a list. -/
def toValue (l : IgnoreList) (now : Stamp) : Value :=
  .object [("ignored", .list l.keys), ("lastUpdated", .text now.precise),
    ("version", .text version)]

/-- Writes the list to its file. -/
def save (l : IgnoreList) (now : Stamp) : FileWork Unit := do
  FileWork.ensureFolder l.path.parent
  match l.path.withExtension? ".tmp" with
  | none => throw (.noName l.path.text)
  | some beside => FileWork.replaceFile beside l.path (Json.render (l.toValue now))

def isIgnored (l : IgnoreList) (key : Value) : Bool := l.keys.any (·.same key)

/-- With a key at the end. -/
def added (l : IgnoreList) (key : Value) : IgnoreList := { l with keys := l.keys ++ [key] }

/-- Without a key, at its first place. -/
def removed (l : IgnoreList) (key : Value) : IgnoreList :=
  { l with keys := l.keys.eraseP (·.same key) }

end IgnoreList

/-- A list of keys, and the files it is kept in. -/
structure KeptList where
  list : IgnoreList
  disk : Disk

/-- Work on a list and its file. What was done to either before a fault stays done. -/
abbrev IgnoreWork := EStateM Fault KeptList

namespace IgnoreWork

/-- Reads the list from its file. A fault leaves it empty. -/
def load : IgnoreWork Unit := fun s =>
  match s.list.load s.disk with
  | .ok l => .ok () { s with list := l }
  | .error f => .error f { s with list := .new s.list.path }

/-- Writes the list to its file. -/
def save (now : Stamp) : IgnoreWork Unit := fun s =>
  match s.list.save now s.disk with
  | .ok () disk => .ok () { s with disk := disk }
  | .error f disk => .error f { s with disk := disk }

/-- Whether a key is in the list. -/
def isIgnored (key : Value) : IgnoreWork Bool := return (← get).list.isIgnored key

/-- Adds a key and writes the list, unless the key is there. -/
def add (key : Value) (now : Stamp) : IgnoreWork Unit := do
  if !(← isIgnored key) then
    modify fun s => { s with list := s.list.added key }
    save now

/-- Removes a key and writes the list, if the key is there. -/
def remove (key : Value) (now : Stamp) : IgnoreWork Unit := do
  if ← isIgnored key then
    modify fun s => { s with list := s.list.removed key }
    save now

end IgnoreWork

end ActionSweep
