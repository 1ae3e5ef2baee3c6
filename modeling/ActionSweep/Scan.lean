import ActionSweep.Candidate
import ActionSweep.EmptyFolders
import ActionSweep.Extract.Document
import ActionSweep.Extract.Markup
import ActionSweep.Extract.Script

/-
A scan: the declared actions of a project, every reference to them in its files, and the folders
without files. A file that cannot be read or understood costs a warning; the scan fails only where
nothing could be said about the project at all. A scanner remembers in which state its last scan
ended.
-/

namespace ActionSweep

/-- What a scan works with. A setting of the wrong kind is a fault at the moment it is used. -/
structure ScanConfig where
  actionDirs : Except Fault (List Text)
  rules : CandidateRules
  depth : Except Fault Extract.DepthLimit

/-- The changes of state that are allowed. -/
def ScanState.next : ScanState → List ScanState
  | idle => [discovering]
  | discovering => [extracting, failed]
  | extracting => [classified, failed]
  | classified => [idle]
  | failed => [idle]

/-- Goes over to another state, if that is allowed. -/
def ScanState.advance (s target : ScanState) : Except Fault ScanState :=
  if s.next.contains target then .ok target else .error (.badTransition s target)

/-- Values that count as no entry at all: null, false, zero and the empty text. -/
def Value.isNoEntry : Value → Bool
  | null => true
  | bool b => !b
  | int n => n = 0
  | float x => x == 0
  | text t => t.isEmpty
  | _ => false

/-- Whether a document declares an action: an object with an entry for `exec` or `steps`. -/
def Value.declaresAction : Value → Bool
  | object fields => ["exec", "steps"].any fun name => !(fieldD fields (name : String)).isNoEntry
  | _ => false

/-- The document of a JSON file. -/
def Disk.readJson (disk : Disk) (path : Path) : Except Fault Value := do
  let bytes ← disk.read path.text
  let text ← (Utf8.strictUnmarked bytes).mapError .encoding
  (Json.readWithin disk.around.nesting text.unifyLines).mapError .json

/-- The text of a file, whatever its bytes are. -/
def Disk.readText (disk : Disk) (path : Path) : Except Fault Text := do
  return (Utf8.lossy (← disk.read path.text)).unifyLines

/-- What a scan has found so far: the index, the files whose documents were asked for, and the
warnings in order. -/
structure Findings where
  index : Index
  parsed : List Text
  warnings : List Text

namespace Findings

def empty : Findings := ⟨.empty, [], []⟩

def warn (s : Findings) (t : Text) : Findings := { s with warnings := s.warnings ++ [t] }

/-- The document of a file of the project, null if it cannot be read; the first time that costs a
warning. -/
def parse (disk : Disk) (project : Path) (path : Text) (s : Findings) :
    Except Fault (Value × Findings) :=
  let known := { s with parsed := s.parsed ++ [path] }
  match disk.readJson (project.under path) with
  | .ok v => .ok (v, known)
  | .error f =>
    if f.isFile || f.isValue then
      if s.parsed.contains path then .ok (.null, s)
      else .ok (.null, known.warn ("Warning: " ++ path ++ ": could not parse: " ++ f.message))
    else .error f

/-- Declares the action of a file, if its document is one. -/
def discoverFile (disk : Disk) (project : Path) (s : Findings) (path : Text) :
    Except Fault Findings := do
  let (v, s) ← s.parse disk project path
  if v.declaresAction then return { s with index := s.index.declare (Key.ofDeclaration path) path v }
  else return s

/-- Records references found in a file. -/
def recordAll (s : Findings) (source : Text) (raws : List RawReference) : Findings :=
  { s with index := raws.foldl (·.record source ·) s.index }

/-- Searches the text of a candidate. -/
def searchText (disk : Disk) (project : Path) (strategy : Text → List RawReference) (s : Findings)
    (path : Text) : Except Fault Findings :=
  match disk.readText (project.under path) with
  | .ok t => .ok (s.recordAll path (strategy t))
  | .error f =>
    if f.isFile then .ok (s.warn ("Warning: could not read " ++ path ++ ": " ++ f.message))
    else .error f

/-- Searches the document of a candidate. -/
def searchDocument (disk : Disk) (project : Path) (depth : Except Fault Extract.DepthLimit)
    (s : Findings) (path : Text) : Except Fault Findings := do
  let (v, s) ← s.parse disk project path
  match v with
  | .null => return s
  | v =>
    let limit ← depth
    match Extract.document v limit with
    | .ok raws => return s.recordAll path raws
    | .error e => return s.warn ("Warning: " ++ path ++ ": " ++ e.reason)

/-- Searches a candidate. -/
def searchFile (disk : Disk) (project : Path) (depth : Except Fault Extract.DepthLimit)
    (s : Findings) (candidate : Text × Category) : Except Fault Findings :=
  match candidate.2 with
  | .structured => s.searchDocument disk project depth candidate.1
  | .markup => s.searchText disk project Extract.markup candidate.1
  | .script => s.searchText disk project Extract.script candidate.1

end Findings

namespace Scan

/-- What is in a folder that a walk through the action folders enters. It has to be listed. -/
def enter (disk : Disk) (project folder : Path) : Except Fault Dir :=
  match disk.list folder.text with
  | .error (.file f) =>
    .error (.noActionFolders (.unlisted folder.text f.problem) project.text)
  | outcome => outcome

/-- The path of an entry of a folder that counts as a JSON file. A link counts as a file unless it leads
to a folder. -/
def jsonFile? (disk : Disk) (folder : Path) : Text × Entry → Option Path
  | (name, e) =>
    let path := folder.inside name
    let isFile := match e with
      | .file _ => true
      | .link _ => !disk.leadsToFolder path.text
      | .folder _ => false
    if isFile && Key.extension.isSuffixOf name then some path else none

/-- The path of a file relative to the project. -/
def relative (project path : Path) : Except Fault Text :=
  match Path.relativeTo? project path with
  | some p => .ok p.text
  | none => .error (.notBelow path.text project.text)

/-- The JSON files directly in a folder. -/
def jsonFilesIn (disk : Disk) (project folder : Path) (d : Dir) : Except Fault (List Text) :=
  (d.entries.filterMap (jsonFile? disk folder)).mapM (relative project)

/-- The JSON files inside the folders of a folder, those directly in a folder before those in its
folders. Links are not entered. -/
def jsonFilesBelow (disk : Disk) (project folder : Path) : Dir → Except Fault (List Text)
  | .empty => .ok []
  | .file _ _ rest | .link _ _ rest => jsonFilesBelow disk project folder rest
  | .folder n d rest => do
    let _ ← enter disk project (folder.inside n)
    let direct ← jsonFilesIn disk project (folder.inside n) d
    let below ← jsonFilesBelow disk project (folder.inside n) d
    return direct ++ below ++ (← jsonFilesBelow disk project folder rest)

/-- The JSON files below an action folder, by their paths relative to the project, in order. -/
def actionFiles (disk : Disk) (project root : Path) : Except Fault (List Text) := do
  let d ← enter disk project root
  let direct ← jsonFilesIn disk project root d
  return Text.sort (direct ++ (← jsonFilesBelow disk project root d))

/-- Declares the actions of all action folders. -/
def discover (config : ScanConfig) (disk : Disk) (project : Path) : Except Fault Findings := do
  let dirs ← config.actionDirs
  let roots := dirs.map project.under
  let existing ← roots.filterM fun root => disk.isFolder root.text
  if existing.isEmpty then throw (.noActionFolders (.missing dirs) project.text)
  let missing := roots.filter fun root => !existing.contains root
  let start := missing.foldl (fun s root =>
    s.warn ("Warning: action directory " ++ root.text ++ " does not exist")) Findings.empty
  existing.foldlM (fun s root => do
    (← actionFiles disk project root).foldlM (Findings.discoverFile disk project) s) start

/-- Searches all candidates for references. -/
def extract (config : ScanConfig) (disk : Disk) (project : Path) (s : Findings) :
    Except Fault Findings := do
  let candidates ← Candidate.all config.rules disk project
  candidates.foldlM (Findings.searchFile disk project config.depth) s

/-- Puts the result of a scan together. -/
def finish (config : ScanConfig) (disk : Disk) (project : Path) (s : Findings) :
    Except Fault ScanResult := do
  let folders ← EmptyFolders.find disk project (← config.actionDirs)
  return ⟨rank s.index.actions, folders, s.warnings, s.index.unresolved⟩

end Scan

/-- A scanner of one project. -/
structure Scanner where
  project : Path
  config : ScanConfig
  state : ScanState

namespace Scanner

def new (project : Path) (config : ScanConfig) : Scanner := ⟨project, config, .idle⟩

def moved (s : Scanner) (target : ScanState) : Scanner := { s with state := target }

/-- Goes over to another state on request. -/
def advance (s : Scanner) (target : ScanState) : Except Fault Scanner :=
  (s.state.advance target).map s.moved

/-- A scanner that can start a scan: one that is idle, or has finished its last scan. -/
def readied (s : Scanner) : Except Fault Scanner :=
  if s.state = .idle then .ok s else s.advance .idle

/-- Scans the project as it is now. -/
def scan (s : Scanner) (disk : Disk) : Except Fault ScanResult × Scanner :=
  match s.readied with
  | .error f => (.error f, s)
  | .ok s =>
    let s := s.moved .discovering
    match Scan.discover s.config disk s.project with
    | .error f => (.error f, s.moved .failed)
    | .ok found =>
      let s := s.moved .extracting
      match Scan.extract s.config disk s.project found >>=
          Scan.finish s.config disk s.project with
      | .error f => (.error f, s.moved .failed)
      | .ok r => (.ok r, s.moved .classified)

end Scanner

end ActionSweep
