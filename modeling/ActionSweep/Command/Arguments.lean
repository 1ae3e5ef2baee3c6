import ActionSweep.Files.Disk
import ActionSweep.Text.Likeness

/-
The arguments of the command: options with and without a value, in any order, and what is wrong with
arguments that are not accepted.
-/

namespace ActionSweep.Command

/-- The options of the command. -/
inductive Switch
  | version
  | nonInteractive
  | dryRun
  | output
  | projectRoot
  | config
  | logLevel
  | help
deriving Repr, DecidableEq

namespace Switch

def spelling : Switch → Text
  | version => "--version"
  | nonInteractive => "--non-interactive"
  | dryRun => "--dry-run"
  | output => "--output"
  | projectRoot => "--project-root"
  | config => "--config"
  | logLevel => "--log-level"
  | help => "--help"

def all : List Switch :=
  [version, nonInteractive, dryRun, output, projectRoot, config, logLevel, help]

/-- The option with a spelling. -/
def ofSpelling? (t : Text) : Option Switch := all.find? fun o => o.spelling = t

def takesValue : Switch → Bool
  | output | projectRoot | config | logLevel => true
  | _ => false

/-- Options that ask for a page of text and nothing else. -/
def asksForPage : Switch → Bool
  | version | help => true
  | _ => false

end Switch

/-- The levels of the log, from most to least. -/
def logLevels : List Text := ["debug", "info", "warning", "error"]

/-- Why arguments are not accepted. -/
inductive UsageFault
  | unknownOption (spelling : Text)
  | missingValue (option : Switch)
  | unwantedValue (option : Switch)
  | extraArguments (arguments : List Text)
  /-- The value names a folder where a file is meant. -/
  | folderForFile (option : Switch) (value : Text)
  /-- The value names a file where a folder is meant. -/
  | fileForFolder (option : Switch) (value : Text)
  | unknownLevel (value : Text)
deriving Repr, DecidableEq

namespace UsageFault

/-- A complaint about the value of an option. -/
def badValue (option : Switch) (complaint : Text) : Text :=
  "Invalid value for '" ++ option.spelling ++ "': " ++ complaint

/-- The options that may be meant by a spelling. For one dash there is no guess. -/
def meant (spelling : Text) : List Text :=
  if (['-', '-'] : Text).isPrefixOf spelling then
    Text.closest spelling (Switch.all.map Switch.spelling)
  else []

/-- The question which option is meant. -/
def hint : List Text → Text
  | [] => []
  | [option] => " Did you mean " ++ option.quoted ++ "?"
  | options => " (Did you mean one of: " ++ Text.join ", " (options.map Text.quoted) ++ "?)"

def message : UsageFault → Text
  | unknownOption s => "No such option " ++ s.quoted ++ "." ++ hint (meant s)
  | missingValue o => "Option " ++ o.spelling.quoted ++ " requires an argument."
  | unwantedValue o => "Option " ++ o.spelling.quoted ++ " does not take a value."
  | extraArguments args =>
    "Got unexpected extra argument" ++ (if args.length = 1 then [] else ['s']) ++ " (" ++
      Text.join " " args ++ ")"
  | folderForFile o v => badValue o ("File " ++ v.quoted ++ " is a directory.")
  | fileForFolder o v => badValue o ("Directory " ++ v.quoted ++ " is a file.")
  | unknownLevel v =>
    badValue .logLevel
      (v.quoted ++ " is not one of " ++ Text.join ", " (logLevels.map Text.quoted) ++ ".")

/-- Whether the complaint comes with a hint on how the command is used. -/
def showsUsage : UsageFault → Bool
  | missingValue _ | unwantedValue _ => false
  | _ => true

end UsageFault

/-- The options given, in order, each with its value (empty for one that takes none), and the other
arguments. -/
structure Given where
  options : List (Switch × Text)
  extra : List Text
deriving Repr, DecidableEq

namespace Given

def empty : Given := ⟨[], []⟩

def withOption (o : Switch) (value : Text) (g : Given) : Given :=
  { g with options := (o, value) :: g.options }

def withExtra (arg : Text) (g : Given) : Given := { g with extra := arg :: g.extra }

/-- The option of an argument that begins with a dash, and the value behind its equals sign. -/
def optionOf (arg : Text) : Except UsageFault (Switch × Option Text) :=
  let spelling := arg.takeWhile (· ≠ '=')
  match Switch.ofSpelling? spelling with
  | some o => .ok (o, ['='].isPrefixOf? (arg.drop spelling.length))
  | none =>
    if (['-', '-'] : Text).isPrefixOf arg then .error (.unknownOption spelling)
    else .error (.unknownOption (arg.take 2))

/-- Tells options and other arguments apart. Behind two dashes there are no options. -/
def ofArguments : List Text → Except UsageFault Given
  | [] => .ok empty
  | arg :: rest =>
    if arg = ['-', '-'] then .ok ⟨[], rest⟩
    else if ['-'].isPrefixOf arg && arg ≠ ['-'] then
      match optionOf arg with
      | .error f => .error f
      | .ok (o, some value) =>
        if o.takesValue then (ofArguments rest).map (withOption o value)
        else .error (.unwantedValue o)
      | .ok (o, none) =>
        if o.takesValue then
          match rest with
          | [] => .error (.missingValue o)
          | value :: rest => (ofArguments rest).map (withOption o value)
        else (ofArguments rest).map (withOption o [])
    else (ofArguments rest).map (withExtra arg)

/-- The last value given for an option. -/
def value? (g : Given) (o : Switch) : Option Text :=
  (g.options.reverse.find? (·.1 = o)).map (·.2)

def has (g : Given) (o : Switch) : Bool := g.options.any (·.1 = o)

/-- The options in the order in which they were first given. -/
def inOrder (g : Given) : List Switch := (g.options.map (·.1)).eraseDups

end Given

/-- What is asked of the command. -/
structure Request where
  interactive : Bool
  dryRun : Bool
  output : Text
  projectRoot : Text
  config : Text
  /-- Whether the level of the log is given, so that the one in the settings does not count. -/
  levelGiven : Bool
deriving Repr, DecidableEq

/-- Why a command ends before its work begins. -/
inductive Refusal
  | usage (f : UsageFault)
  | fault (f : Fault)
  /-- A page of text was asked for. -/
  | page (option : Switch)

/-- Accepts the value of an option. Paths may be missing, but not of the wrong kind. -/
def accept (disk : Disk) (g : Given) (o : Switch) : Except Refusal Unit :=
  match g.value? o with
  | none => .ok ()
  | some value =>
    match o with
    | .output | .config =>
      if value.contains '\x00' then .error (.fault .zeroInPath)
      else if disk.leadsToFolder value then .error (.usage (.folderForFile o value)) else .ok ()
    | .projectRoot =>
      if value.contains '\x00' then .error (.fault .zeroInPath)
      else if disk.isThere value && !disk.leadsToFolder value then
        .error (.usage (.fileForFolder o value))
      else .ok ()
    | .logLevel =>
      if logLevels.contains (Text.lower value) then .ok () else .error (.usage (.unknownLevel value))
    | _ => .ok ()

/-- What some arguments ask for. A page that is asked for comes before complaints about values, and
these before complaints about further arguments. -/
def Request.ofArguments (disk : Disk) (args : List Text) : Except Refusal Request := do
  let g ← (Given.ofArguments args).mapError .usage
  match g.inOrder.find? Switch.asksForPage with
  | some o => throw (.page o)
  | none => pure ()
  g.inOrder.forM (accept disk g)
  if !g.extra.isEmpty then throw (.usage (.extraArguments g.extra))
  return {
    interactive := !g.has .nonInteractive
    dryRun := g.has .dryRun
    output := (g.value? .output).getD []
    projectRoot := (g.value? .projectRoot).getD []
    config := (g.value? .config).getD []
    levelGiven := g.has .logLevel }

end ActionSweep.Command
