import ActionSweep.Routes

/-
The settings of a scan as a settings file gives them: any value may stand for any of them, and a
value of the wrong kind is a fault when it is used, not when it is read.
-/

namespace ActionSweep

/-- The settings of a scan, as given. -/
structure ScanSettings where
  actionDirs : Value
  markup : Value
  structured : Value
  script : Value
  exclude : Value
  routesFile : Value
  maxDepth : Value

namespace ScanSettings

/-- A list of texts as a value. -/
def texts (ts : List String) : Value := .list (ts.map fun t => .text t.toList)

def standard : ScanSettings where
  actionDirs := texts ["app/api", "app/lib"]
  markup := texts ["views/**/*.html", "views/**/*.ejs", "public/**/*.html", "public/**/*.ejs"]
  structured := texts ["app/**/*.json"]
  script := texts ["public/**/*.js", "views/**/*.js", "extensions/**/*.js"]
  exclude := texts ["node_modules/", ".git/"]
  routesFile := .text "app/config/routes.json"
  maxDepth := .int 64

/-- A setting that null leaves as it was. -/
def orKept (v kept : Value) : Value :=
  match v with
  | .null => kept
  | v => v

/-- Takes one setting over. -/
def set (s : ScanSettings) (name : Text) (v : Value) : Except Misuse ScanSettings :=
  if name = "action_dirs" then .ok { s with actionDirs := orKept v s.actionDirs }
  else if name = "markup_patterns" then .ok { s with markup := orKept v s.markup }
  else if name = "structured_patterns" then .ok { s with structured := orKept v s.structured }
  else if name = "script_patterns" then .ok { s with script := orKept v s.script }
  else if name = "exclude_patterns" then .ok { s with exclude := orKept v s.exclude }
  else if name = "routes_file" then .ok { s with routesFile := v }
  else if name = "max_depth" then .ok { s with maxDepth := v }
  else .error (.unexpectedSetting "ScanConfig" name)

/-- The standard settings with those of an object taken over. -/
def ofFields (fields : List (Text × Value)) : Except Misuse ScanSettings :=
  fields.foldlM (fun s f => s.set f.1 f.2) standard

/-! ## Use -/

/-- The limit of nesting that a value stands for. -/
def depthLimit : Value → Except Misuse Extract.DepthLimit
  | .int n => .ok (.ofInt n)
  | .bool b => .ok ⟨some (if b then 1 else 0), (Value.bool b).shown⟩
  | .float x =>
    .ok ⟨if x.isNaN || x > 1e15 then none
      else if x < 0 then some (-1)
      else some (Int.ofNat x.floor.toUInt64.toNat), floatText x⟩
  | v => .error (.notComparable v.kind)

/-- The action folders that a value stands for. -/
def folders (v : Value) : Except Misuse (List Text) := do
  (← v.items).mapM Value.asPathPart

/-- The pattern of a value, if it is one. -/
def pattern (v : Value) : Except Fault (Option Pattern) :=
  match v with
  | .text t => (Pattern.ofLine t).mapError .pattern
  | v => .error (.misuse (.notPattern v.shown))

/-- The patterns of some values; values that count as false are left out. -/
def patterns (values : List Value) : Except Fault PatternSet :=
  ((values.filter Value.truthy).mapM pattern).map fun ps => ⟨ps.filterMap id⟩

/-- The patterns for what is left out. A text is no list of lines, nor are bytes. -/
def excluded (v : Value) : Except Fault PatternSet :=
  match v.items with
  | .error _ => .error (.misuse (.notLines v.shown))
  | .ok values =>
    if v.kind = "str" || v.kind = "bytes" then .error (.misuse (.notLines v.shown))
    else patterns values

/-- The folders where walks start for some patterns. -/
def bases (values : List Value) : Except Fault (List Text) :=
  ((values.mapM (Value.asText "lstrip")).map CandidateRules.basesOf).mapError .misuse

/-- The rules for candidates. -/
def rules (s : ScanSettings) : Except Fault CandidateRules := do
  let markup ← s.markup.items.mapError .misuse
  let structured ← s.structured.items.mapError .misuse
  let script ← s.script.items.mapError .misuse
  return {
    markup := ← patterns markup
    structured := ← patterns structured
    script := ← patterns script
    exclude := ← excluded s.exclude
    bases := bases (markup ++ structured ++ script) }

/-- The settings in the form a scan uses. -/
def config (s : ScanSettings) : Except Fault ScanConfig := do
  return {
    actionDirs := (folders s.actionDirs).mapError .misuse
    rules := ← s.rules
    depth := (depthLimit s.maxDepth).mapError .misuse }

/-- The routing table of a project. -/
def routeTable (s : ScanSettings) (project : Path) : Except Fault RouteTable := do
  return .new project (← s.routesFile.asPathPart.mapError .misuse)

/-- All settings under their names. -/
def toValue (s : ScanSettings) : Value :=
  .object [("action_dirs", s.actionDirs), ("markup_patterns", s.markup),
    ("structured_patterns", s.structured), ("script_patterns", s.script),
    ("exclude_patterns", s.exclude), ("routes_file", s.routesFile), ("max_depth", s.maxDepth)]

end ScanSettings

end ActionSweep
