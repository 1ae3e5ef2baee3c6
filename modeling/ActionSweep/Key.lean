import ActionSweep.Files.Path
import ActionSweep.Text.Blank

/-
Keys: the names by which server actions are known. A declaration file has a key by its place in the
project, a reference has one by its spelling, and a reference names an action when the keys agree.
-/

namespace ActionSweep

/-- What a reference is looked up as: in the index of actions, or as the target of a route. -/
inductive Lookup
  | action
  | route
deriving Repr, DecidableEq

namespace Key

/-- The extension of declaration files, which keys do not have. -/
def extension : Text := ['.', 'j', 's', 'o', 'n']

/-- The beginning of every URL of the API. -/
def apiMark : Text := ['/', 'a', 'p', 'i', '/']

/-- The beginning of keys of library actions. -/
def libMark : Text := ['l', 'i', 'b', '/']

/-- The folder of declarations, where queue settings spell it out before a URL of the API. -/
def appFolder : Text := ['/', 'a', 'p', 'p']

/-- Without the extension of declaration files at the end. -/
def dropExtension (t : Text) : Text := (Text.dropEnding? extension t).getD t

/-- The key a reference names. URLs of the API keep their form, also with the folder of declarations
in front; in the index of actions every other relative spelling is one of a library action. Blank
texts and bare fragments name nothing. -/
def ofReference (lookup : Lookup) (raw : Text) : Option Text :=
  if raw.allBlank || ['#'].isPrefixOf raw then none
  else if apiMark.isPrefixOf raw then some (dropExtension raw)
  else if (appFolder ++ apiMark).isPrefixOf raw then some (dropExtension (raw.drop appFolder.length))
  else if lookup = .action && !(['/'].isPrefixOf raw) && !libMark.isPrefixOf raw then
    some (dropExtension (libMark ++ raw))
  else some (dropExtension raw)

/-- The key of the action declared at a path relative to the project: below `app/api` the URL, below
`app/lib` the library name, elsewhere the path itself. -/
def ofDeclaration (path : Text) : Text :=
  let t := (Path.ofText path).text
  match Text.dropBeginning? ("app/api/" : Text) t with
  | some rest => apiMark ++ dropExtension rest
  | none =>
    match Text.dropBeginning? ("app/lib/" : Text) t with
    | some rest => libMark ++ dropExtension rest
    | none => dropExtension t

/-- The file, relative to the project, that the exec entry of a route should name. -/
def routeFile (exec : Text) : Option Text :=
  (ofReference .route exec).map fun key =>
    "app/" ++ key.dropWhile (· = '/') ++ extension

end Key

end ActionSweep
