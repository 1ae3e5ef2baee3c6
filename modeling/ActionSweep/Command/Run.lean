import ActionSweep.Command.Arguments
import ActionSweep.Session.Run
import ActionSweep.Settings.File

/-
The command from its arguments to its exit code.
-/

namespace ActionSweep.Command

/-- What a run of the command leaves behind: its exit code, the fault that ended it if the command
has no message for it, what it wrote, and the files. -/
structure Outcome where
  exitCode : Nat
  fault : Option Fault
  console : Console
  disk : Disk

/-- What a command comes to before anything is typed: its end, or a session with its next question. -/
inductive Start
  | ended (o : Outcome)
  | session (s : Session) (next : Next)

/-! ## Pages -/

/-- The lines of the page about the command. -/
def helpLines : List Text := [
  "Usage: action-cleanup [OPTIONS]",
  "",
  "  Find and clean up unreferenced server actions, dead routes and empty folders.",
  "",
  "Options:",
  "  --version                       Show the version and exit.",
  "  --non-interactive               Run in non-interactive mode",
  "  --dry-run                       Show what would be deleted without actually",
  "                                  deleting",
  "  --output FILE                   Output results to a JSON (or .html) file",
  "  --project-root DIRECTORY        Specify project root directory  [default:",
  "                                  (current directory)]",
  "  --config FILE                   Path to a config.yaml",
  "  --log-level [debug|info|warning|error]",
  "                                  Override the configured log level",
  "  --help                          Show this message and exit."]

def versionLine : Text := "action-cleanup, version 1.0.0"

/-- The page that an option asks for. -/
def page : Switch → List Text
  | .version => [versionLine]
  | _ => helpLines

/-- The hint on how the command is used, and an empty line. -/
def usageHint : List Text :=
  ["Usage: action-cleanup [OPTIONS]", "Try 'action-cleanup --help' for help.", ""]

/-- The complaint about arguments. -/
def usageLines (f : UsageFault) : List Text :=
  (if f.showsUsage then usageHint else []) ++ [("Error: " : Text) ++ f.message]

/-- The end of a command that refuses its arguments. -/
def refuse (disk : Disk) (console : Console) : Refusal → Outcome
  | .usage f => ⟨2, none, (usageLines f).foldl Console.warn console, disk⟩
  | .fault f => ⟨1, some f, console, disk⟩
  | .page o => ⟨0, none, console.sayAll (page o), disk⟩

/-! ## Work -/

/-- A line about an error. -/
def complain (console : Console) (t : Text) : Console :=
  console.warn ((Style.of .red).apply "Error:" ++ " " ++ t)

/-- Faults of settings for which there is a message. -/
def isSettingsFault (f : Fault) : Bool :=
  f.isFile || f.isValue || f.isKind || match f with
    | .yaml .malformed => true
    | _ => false

/-- Faults of a scan for which there is a message. -/
def isScanFault (f : Fault) : Bool := f.isOwn || f.isFile

/-- Shows or saves the result without asking anything. -/
def report (r : ScanResult) (request : Request) (now : Stamp) (disk : Disk) (console : Console) :
    Outcome :=
  let finish (disk : Disk) (console : Console) : Outcome :=
    if request.dryRun then
      let unused := r.withConfidence .safeToDelete
      let title := (Style.of .blue).apply
        ("Dry run: " ++ Text.ofNat unused.length ++ " actions would be deleted")
      ⟨0, none, console.sayAll ([[], title] ++ unused.map fun a => ("  " : Text) ++ a.file), disk⟩
    else ⟨0, none, console, disk⟩
  if request.output.isEmpty then finish disk (r.print ScanResult.standardLimit console)
  else match r.save request.output now disk with
    | .error f disk => ⟨1, some f, console, disk⟩
    | .ok () disk =>
      finish disk (console.say ((Style.of .green).apply ("Results saved to " ++ request.output)))

/-- The lists of ignored keys of a project: actions, then routes. -/
def ignoreLists (settings : Settings) (disk : Disk) (project : Path) :
    Except Fault (IgnoreList × IgnoreList) := do
  let s ← (settings.ignore.require "resolve").mapError .misuse
  let actions ← (IgnoreList.new (← (s.place disk project s.actionsFile).mapError .misuse)).load disk
  let routes ← (IgnoreList.new (← (s.place disk project s.routesFile).mapError .misuse)).load disk
  return (actions, routes)

/-- Begins a session. -/
def beginSession (plan : SessionPlan) (settings : Settings) (scanner : Scanner) (r : ScanResult)
    (disk : Disk) (console : Console) : Start :=
  match ignoreLists settings disk plan.project with
  | .error f => .ended ⟨1, some f, console, disk⟩
  | .ok (actions, routes) =>
    match Dialog.welcome (.start plan actions routes disk console scanner r) with
    | .error f s => .ended ⟨1, some f, s.console, s.disk⟩
    | .ok next s => .session s next

/-- What a run works with, once the settings are known. -/
def plan (request : Request) (settings : Settings) (now : Stamp) (disk : Disk) :
    Except Fault SessionPlan := do
  match request.levelGiven, settings.logLevel with
  | true, _ => pure ()
  | false, v => let _ ← (v.asText "upper").mapError .misuse
  let project ← disk.realPath (Path.ofText request.projectRoot)
  let scan ← (settings.scan.requireOr .standard "markup_patterns").mapError .misuse
  let config ← scan.config
  return {
    project, settings := scan, config, deletion := settings.delete, dryRun := request.dryRun, now
    roots := do
      let _ ← (settings.scan.require "action_dirs").mapError .misuse
      config.actionDirs }

/-- Does what is asked, up to the first question of a session. -/
def work (request : Request) (now : Stamp) (disk : Disk) (console : Console) : Start :=
  let console := console.say ((Style.boldOf .blue).apply "Server Action Cleanup Tool")
  match Settings.load disk request.config with
  | .error f =>
    if isSettingsFault f then
      .ended ⟨1, none, complain console ("invalid configuration: " ++ f.message), disk⟩
    else .ended ⟨1, some f, console, disk⟩
  | .ok settings =>
    match plan request settings now disk with
    | .error f => .ended ⟨1, some f, console, disk⟩
    | .ok plan =>
      let console := console.say ((Style.of .brightBlack).apply
        "Scanning project for server actions and references...")
      match (Scanner.new plan.project plan.config).scan disk with
      | (.error f, _) =>
        if isScanFault f then .ended ⟨1, none, complain console f.message, disk⟩
        else .ended ⟨1, some f, console, disk⟩
      | (.ok r, scanner) =>
        if request.interactive then beginSession plan settings scanner r disk console
        else .ended (report r request now disk console)

/-- Starts the command with its arguments; `styles` says whether the terminal shows styles. -/
def start (args : List Text) (styles : Bool) (now : Stamp) (disk : Disk) : Start :=
  match Request.ofArguments disk args with
  | .error refusal => .ended (refuse disk (.new styles) refusal)
  | .ok request => work request now disk (.new styles)

/-- What a session that has ended leaves behind. -/
def outcome (e : Ending) (s : Session) : Outcome :=
  match e with
  | .left => ⟨0, none, s.console, s.disk⟩
  | .abandoned => ⟨1, none, s.console, s.disk⟩
  | .failed f => ⟨1, some f, s.console, s.disk⟩

/-- Runs the command on the lines that are typed. -/
def run (args lines : List Text) (styles : Bool) (now : Stamp) (disk : Disk) : Outcome :=
  match start args styles now disk with
  | .ended o => o
  | .session s next =>
    let (e, s) := s.run lines next
    outcome e s

/-- The lines of a typed text; what stands behind the last line end is a line if it is not empty. -/
def typedLines (t : Text) : List Text :=
  let lines := t.unifyLines.split '\n'
  if lines.getLast? = some [] then lines.dropLast else lines

end ActionSweep.Command
