import ActionSweep.IgnoreList
import ActionSweep.ScanResult

/-
The result of a scan as an HTML page. Keys and paths come from files, so the five characters with a
meaning in HTML are written as entities.
-/

namespace ActionSweep

/-- The entity of a character that has a meaning in HTML, any other character itself. -/
def Text.entity (c : Char) : Text :=
  match c with
  | '&' => "&amp;"
  | '<' => "&lt;"
  | '>' => "&gt;"
  | '"' => "&quot;"
  | '\'' => "&#x27;"
  | c => [c]

/-- A text inside an element of a page. -/
def Text.escaped (t : Text) : Text := t.flatMap entity

namespace Page

/-- Lines, each with its end. -/
def lines (ls : List String) : Text := ls.flatMap fun l => l.toList ++ ['\n']

/-- The page up to the body, with its look. -/
def head : Text := lines [
  "<!DOCTYPE html>",
  "<html>",
  "<head>",
  "    <title>Server Action Analysis Report</title>",
  "    <style>",
  "        body \x7b font-family: Arial, sans-serif; margin: 20px; \x7d",
  "        .summary \x7b background: #f5f5f5; padding: 15px; border-radius: 5px; margin-bottom: 20px; \x7d",
  "        .used \x7b color: #28a745; \x7d",
  "        .unused \x7b color: #dc3545; \x7d",
  "        table \x7b width: 100%; border-collapse: collapse; \x7d",
  "        th, td \x7b border: 1px solid #ddd; padding: 8px; text-align: left; \x7d",
  "        th \x7b background-color: #f2f2f2; \x7d",
  "        .safe-to-delete \x7b background-color: #ffebee; \x7d",
  "    </style>",
  "</head>"]

/-- The numbers of a result. -/
def summary (s : ScanSummary) : Text :=
  lines ["<body>", "    <h1>Server Action Analysis Report</h1>", "    <div class=\"summary\">"] ++
  "        <p><span class=\"used\">Used actions:</span> " ++ Text.ofNat s.used ++ "</p>\n" ++
  "        <p>Possibly unused: " ++ Text.ofNat s.possiblyUnused ++ "</p>\n" ++
  "        <p><span class=\"unused\">Likely unused:</span> " ++ Text.ofNat s.likelyUnused ++
    "</p>\n" ++
  "        <p><strong>Total actions:</strong> " ++ Text.ofNat s.total ++ "</p>\n" ++
  lines ["    </div>"]

/-- The table before its rows. -/
def tableHead : Text :=
  lines ["    <table>", "        <thead>",
    "            <tr><th>Status</th><th>Confidence</th><th>References</th><th>URL Path</th><th>File Path</th></tr>",
    "        </thead>"] ++ "        <tbody>"

/-- A line of a row. -/
def cell (content : Text) : Text := "                <td" ++ content ++ "</td>\n"

/-- The row of an action. -/
def row (a : Action) : Text :=
  "\n            <tr class=\"" ++ a.confidence.label ++ "\">\n" ++
  cell (" class=\"" ++ a.status ++ "\">" ++ a.status) ++
  cell (">" ++ a.confidence.label) ++
  cell (">" ++ Text.ofNat a.references.length) ++
  cell ("><code>" ++ Text.escaped a.key ++ "</code>") ++
  cell ("><code>" ++ Text.escaped a.file ++ "</code>") ++
  "            </tr>"

/-- The page behind the rows of the table. -/
def foot (now : Stamp) : Text :=
  "\n" ++ lines ["        </tbody>", "    </table>"] ++
  "    <p><em>Generated on " ++ now.plain ++ "</em></p>\n" ++ lines ["</body>", "</html>"]

end Page

/-- The result as an HTML page. -/
def ScanResult.page (r : ScanResult) (now : Stamp) : Text :=
  Page.head ++ Page.summary r.summary ++ Page.tableHead ++ r.actions.flatMap Page.row ++
    Page.foot now

end ActionSweep
