import ActionSweep.Session.State

/-
The questions of a session as they are written, and how answers to them are read. An answer that does
not fit is pointed out and the question comes again.
-/

namespace ActionSweep

/-- What can be chosen in the main menu. -/
inductive MenuEntry
  | actions
  | routes
  | folders
  | ignored
  | saving
  | deletion
  | leaving
deriving Repr, DecidableEq

/-- What the main menu says about an entry. -/
def MenuEntry.text (s : Session) : MenuEntry → Text
  | actions => "Manage server actions (mark/ignore/delete)"
  | routes => "Scan dead routes in routes.json"
  | folders => "Manage empty folders (" ++ Text.ofNat s.result.emptyFolders.length ++ ")"
  | ignored => "View ignored actions (" ++ Text.ofNat s.ignored.keys.length ++ ")"
  | saving => "Export results"
  | deletion =>
    (Style.boldOf .red).apply ("DELETE marked actions (" ++ Text.ofNat s.marked.length ++ ")")
  | leaving => "Exit"

namespace Session

/-- The entries of the main menu at this moment. -/
def menuEntries (s : Session) : List MenuEntry :=
  [.actions, .routes, .folders] ++ (if s.ignored.keys.isEmpty then [] else [.ignored]) ++
    [.saving] ++ (if s.marked.isEmpty then [] else [.deletion]) ++ [.leaving]

/-- The main menu at this moment: its entries with what is said about them. -/
def menu (s : Session) : List (MenuEntry × Text) := s.menuEntries.map fun e => (e, e.text s)

/-- The folder for copies that is proposed. -/
def proposedBackup (s : Session) : Text :=
  ((s.plan.project.under ".action-cleanup").under "backup").text

end Session

/-- The name of a result file that is proposed. -/
def proposedResultFile : Text := "cleanup-results.json"

/-- A question to be answered with yes or no; the answer that an empty line gives is a capital. -/
def yesNo (question : Text) (standard : Bool) : Text :=
  question ++ (if standard then " [Y/n]: " else " [y/N]: ")

/-- The question about folders. -/
def folderQuestion (folders : List Text) : Text :=
  "Delete these " ++ Text.ofNat folders.length ++ " empty folders?"

/-- The text with which a session asks. -/
def Screen.prompt (s : Session) : Screen → Text
  | .mainMenu | .filterMenu => "Select: "
  | .actions =>
    "m <n> mark/unmark, i <n> ignore/unignore, r <n> references, f filter, d delete marked, b back: "
  | .ignoredActions | .ignoredRoutes _ => "u <n> unignore, b back: "
  | .resultFile => "Output file (.json or .html) [" ++ proposedResultFile ++ "]: "
  | .confirmDeletion _ =>
    yesNo ((Style.boldOf .red).apply "This cannot be undone. Are you sure?") false
  | .confirmBackup _ => yesNo "Copy the files to a backup directory first?" false
  | .backupFolder _ => "Backup directory [" ++ s.proposedBackup ++ "]: "
  | .confirmCleanup _ _ folders => yesNo (folderQuestion folders) true
  | .confirmFolders folders => yesNo (folderQuestion folders) false
  | .routes _ => "i <n> ignore, d <n> delete, a delete all, u view ignored, b back: "
  | .confirmRoutes _ _ => yesNo "Remove these routes?" false

namespace Dialog

/-- Goes on with the number that a line gives, from one to `upper`. -/
def withNumber (screen : Screen) (upper : Nat) (line : Text) (go : Nat → Dialog Next) :
    Dialog Next :=
  if line.isEmpty then pure (.ask screen)
  else match Numeral.read line with
    | .error _ => do
      say ("Error: " ++ line.quoted ++ " is not a valid integer range.")
      return .ask screen
    | .ok n =>
      if 1 ≤ n ∧ n ≤ upper then go n.toNat
      else do
        say ("Error: " ++ Text.ofInt n ++ " is not in the range 1<=x<=" ++ Text.ofNat upper ++ ".")
        return .ask screen

/-- Goes on with the one of some options that a line gives the number of. -/
def withOption (screen : Screen) (options : List (α × Text)) (line : Text) (go : α → Dialog Next) :
    Dialog Next :=
  withNumber screen options.length line fun n =>
    match options[n - 1]? with
    | some option => go option.1
    | none => pure (.ask screen)

/-- Goes on with yes or no. -/
def withYesNo (screen : Screen) (standard : Bool) (line : Text) (go : Bool → Dialog Next) :
    Dialog Next :=
  let word := (Text.lower line).trimBlank
  if word = "y" || word = "yes" then go true
  else if word = "n" || word = "no" then go false
  else if word.isEmpty then go standard
  else do
    say "Error: invalid input"
    return .ask screen

/-- A line, or what is proposed if the line is empty. -/
def orProposed (line proposed : Text) : Text := if line.isEmpty then proposed else line

/-- The command at the beginning of a line, in small letters, and what follows it. -/
def command (line : Text) : Text × Text :=
  let (verb, rest) := line.trimBlank.cut ' '
  (Text.lower verb, rest)

/-- The positions in a list that the numbers of a command name. -/
def positions (rest : Text) (count : Nat) : Dialog (List Nat) :=
  need ((Numeral.positions rest count).mapError .numeral)

/-- Points out a command that is none. -/
def unknownCommand (line : Text) : Dialog Unit :=
  sayIn (.of .yellow) ("Unknown command: " ++ line.trimBlank)

end Dialog

end ActionSweep
