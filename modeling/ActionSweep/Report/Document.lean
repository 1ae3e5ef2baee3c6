import ActionSweep.Json.Writer
import ActionSweep.Routes
import ActionSweep.ScanResult

/-
Results as JSON documents.
-/

namespace ActionSweep

/-- A number of things as a value. -/
def Value.ofNat (n : Nat) : Value := .int n

def Reference.toValue (r : Reference) : Value :=
  .object [("sourceFile", .text r.source), ("type", .text r.provenance.label),
    ("originalReference", .text r.original)]

def Action.toValue (a : Action) : Value :=
  .object [("urlPath", .text a.key), ("filePath", .text a.file), ("status", .text a.status),
    ("confidence", .text a.confidence.label), ("referenceCount", .ofNat a.references.length),
    ("references", .list (a.references.map Reference.toValue)), ("content", a.content)]

def EmptyFolder.toValue (f : EmptyFolder) : Value :=
  .object [("path", .text f.path), ("relativePath", .text f.relativePath)]

def ScanSummary.toValue (s : ScanSummary) : Value :=
  .object [("totalActions", .ofNat s.total), ("used", .ofNat s.used),
    ("possiblyUnused", .ofNat s.possiblyUnused), ("likelyUnused", .ofNat s.likelyUnused)]

namespace ScanResult

/-- The fields of a result. References that name no action are not reported. -/
def toFields (r : ScanResult) : List (Text × Value) :=
  [("summary", r.summary.toValue), ("actions", .list (r.actions.map Action.toValue)),
    ("emptyFolders", .list (r.emptyFolders.map EmptyFolder.toValue)),
    ("warnings", .list (r.warnings.map .text))]

def toValue (r : ScanResult) : Value := .object r.toFields

/-- The result as the text of a JSON file. -/
def json (r : ScanResult) : Text := Json.render r.toValue

end ScanResult

def RouteIssue.toValue (i : RouteIssue) : Value :=
  .object [("type", .text i.target.label), ("message", .text i.message),
    ("expectedPath", .text i.expectedPath)]

def DeadRoute.toValue (d : DeadRoute) : Value :=
  .object [("path", d.path), ("route", .object d.route),
    ("issues", .list (d.issues.map RouteIssue.toValue))]

/-- The fields of a check of the routing table. -/
def RouteScan.toFields (s : RouteScan) : List (Text × Value) :=
  [("totalRoutes", .ofNat s.total), ("validRoutes", .int s.valid),
    ("deadRoutes", .list (s.dead.map DeadRoute.toValue))]

end ActionSweep
