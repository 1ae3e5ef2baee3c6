import ActionSweep.Report.Console
import ActionSweep.ScanResult

/-
The result of a scan on a terminal.
-/

namespace ActionSweep.ScanResult

/-- A number behind its name. -/
def counted (style : Style) (name : Text) (n : Nat) : Text := style.apply name ++ " " ++ Text.ofNat n

/-- The lines of the summary; `ignored` actions are mentioned if there are any. -/
def summaryLines (r : ScanResult) (ignored : Nat) : List Text :=
  [(Style.boldOf .blue).apply "Server Action Analysis Results", [],
    counted (.of .green) "Used actions:" r.summary.used,
    counted (.of .yellow) "Possibly unused:" r.summary.possiblyUnused,
    counted (.of .red) "Likely unused:" r.summary.likelyUnused] ++
  (if ignored = 0 then [] else [counted (.of .brightBlack) "Ignored actions:" ignored]) ++
  [counted (.of .yellow) "Empty folders:" r.emptyFolders.length,
    (Style.of .brightBlack).apply (List.replicate 40 '-'),
    counted .bright "Total actions:" r.summary.total]

/-- The summary as one text. -/
def summaryText (r : ScanResult) (ignored : Nat) : Text := Text.join "\n" (r.summaryLines ignored)

/-- The first elements of a list up to a limit; below zero, all but the last ones. -/
def upTo (limit : Int) (xs : List α) : List α :=
  match limit with
  | .ofNat n => xs.take n
  | .negSucc n => xs.take (xs.length - (n + 1))

/-- The lines that name the actions safe to delete, up to a limit. -/
def unusedLines (r : ScanResult) (limit : Int) : List Text :=
  let unused := r.withConfidence .safeToDelete
  if unused.isEmpty then [(Style.of .green).apply "  None found!"]
  else
    (upTo limit unused).map (fun a => "  " ++ (Style.of .red).apply "x" ++ " " ++ a.file) ++
      if limit < unused.length then
        [(Style.of .brightBlack).apply
          ("  ... and " ++ Text.ofInt (unused.length - limit) ++ " more")]
      else []

/-- How many actions a printed summary names if nothing else is said. -/
def standardLimit : Int := 10

/-- Prints the summary, the actions safe to delete and the warnings. -/
def print (r : ScanResult) (limit : Int) (c : Console) : Console :=
  let c := (c.say (r.summaryText 0)).sayAll
    ([[], Style.bright.apply "Safe to delete:"] ++ r.unusedLines limit)
  r.warnings.foldl (fun c t => c.warn ((Style.of .yellow).apply t)) c

end ActionSweep.ScanResult
