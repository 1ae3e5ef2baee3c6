import ActionSweep.Report.Document
import ActionSweep.Report.Page

/-
Saving the result of a scan: as an HTML page if the name of the file asks for one, otherwise as JSON.
-/

namespace ActionSweep.ScanResult

/-- Whether a file name is one of an HTML page. -/
def isPageName (name : Text) : Bool :=
  let name := Text.lower name
  (".html" : Text).isSuffixOf name || (".htm" : Text).isSuffixOf name

/-- The text of the file of a name. -/
def fileText (r : ScanResult) (name : Text) (now : Stamp) : Text :=
  if isPageName name then r.page now else r.json

/-- Writes the file of a name. -/
def save (r : ScanResult) (name : Text) (now : Stamp) : FileWork Unit :=
  FileWork.change (·.write (Path.ofText name).text (Utf8.encode (r.fileText name now)))

end ActionSweep.ScanResult
