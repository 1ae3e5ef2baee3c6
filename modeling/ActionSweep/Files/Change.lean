import ActionSweep.Files.Dir

/-
The difference of two file trees, as steps that turn the one into the other.
-/

namespace ActionSweep

/-- A step from one file tree to another, at a path. -/
inductive Change
  | removeFile (path : List Text)
  | removeFolder (path : List Text)
  | makeFolder (path : List Text)
  | write (path : List Text) (bytes : Bytes)
  | makeLink (path : List Text) (target : Text)
deriving Repr, DecidableEq

namespace Dir

/-- The removals of what is not there afterwards, a folder after what is inside it. What becomes
something of another kind is removed too. -/
def removals (path : List Text) (after : Dir) : Dir → List Change
  | .empty => []
  | .file n _ rest =>
    (match after.get? n with
      | some (.file _) => []
      | _ => [.removeFile (path ++ [n])]) ++ removals path after rest
  | .link n t rest =>
    (if after.get? n = some (.link t) then [] else [.removeFile (path ++ [n])]) ++
      removals path after rest
  | .folder n d rest =>
    (match after.get? n with
      | some (.folder inside) => removals (path ++ [n]) inside d
      | _ => removals (path ++ [n]) .empty d ++ [.removeFolder (path ++ [n])]) ++
      removals path after rest

/-- What is new or has another content afterwards, a folder before what is inside it. -/
def additions (path : List Text) (before : Dir) : Dir → List Change
  | .empty => []
  | .file n b rest =>
    (if before.get? n = some (.file b) then [] else [.write (path ++ [n]) b]) ++
      additions path before rest
  | .link n t rest =>
    (if before.get? n = some (.link t) then [] else [.makeLink (path ++ [n]) t]) ++
      additions path before rest
  | .folder n d rest =>
    (match before.get? n with
      | some (.folder inside) => additions (path ++ [n]) inside d
      | _ => .makeFolder (path ++ [n]) :: additions (path ++ [n]) .empty d) ++
      additions path before rest

/-- The steps from one file tree to another. -/
def changes (before after : Dir) : List Change :=
  removals [] after before ++ additions [] before after

end Dir

end ActionSweep
