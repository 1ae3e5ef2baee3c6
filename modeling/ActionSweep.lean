import ActionSweep.Main
import ActionSweep.Tools
import ActionSweep.Proofs.Index.Recorded
import ActionSweep.Proofs.Outcome
import ActionSweep.Proofs.Scan.Accounting
import ActionSweep.Proofs.Deletion.Run
import ActionSweep.Proofs.Files.Listing
import ActionSweep.Proofs.Scan.ActionFiles
import ActionSweep.Proofs.Scan.Rescan
import ActionSweep.Proofs.Deletion.Safety
import ActionSweep.Proofs.Extract.Document
import ActionSweep.Proofs.Pattern.Matching
import ActionSweep.Proofs.Settings.Standard
import ActionSweep.Proofs.Routes.Spelling
import ActionSweep.Proofs.Routes.Table
import ActionSweep.Proofs.Routes.Survival
import ActionSweep.Proofs.Extract.Literal
import ActionSweep.Proofs.Scan.Literal
import ActionSweep.Proofs.Scan.Growth
import ActionSweep.Proofs.Settings.Coverage
import ActionSweep.Proofs.Scan.Isolation
import ActionSweep.Proofs.Files.Writing
import ActionSweep.Proofs.Routes.Deletion
import ActionSweep.Proofs.Files.Effects
import ActionSweep.Proofs.Ignore.Saving
import ActionSweep.Proofs.Scan.Calls
import ActionSweep.Proofs.Scan.LifeCycle
import ActionSweep.Proofs.Session.DryRun
import ActionSweep.Proofs.Session.Marks
import ActionSweep.Proofs.Extract.Tail
import ActionSweep.Proofs.Scan.Referable
import ActionSweep.Proofs.Scan.Unparseable
import ActionSweep.Proofs.Json.RoundTrip
import ActionSweep.Proofs.Files.Replacing
import ActionSweep.Proofs.Ignore.Agreement
import ActionSweep.Proofs.Extract.DocumentOrder
import ActionSweep.Proofs.Extract.Runs
import ActionSweep.Proofs.Report.ReadBack
import ActionSweep.Proofs.Extract.UrlFields
import ActionSweep.Proofs.Extract.FetchCalls
import ActionSweep.Proofs.Extract.QuotedUrls
import ActionSweep.Proofs.Index.History
import ActionSweep.Proofs.Key.Reading
import ActionSweep.Proofs.Key.Canonical
import ActionSweep.Proofs.Scan.OnePerFile
import ActionSweep.Proofs.Files.Clearing
import ActionSweep.Proofs.Files.Outside
import ActionSweep.Proofs.Folders.Removal
import ActionSweep.Proofs.Folders.Deletion
import ActionSweep.Proofs.Folders.Search
import ActionSweep.Proofs.Folders.Found
import ActionSweep.Proofs.Folders.Roots
import ActionSweep.Proofs.Files.Alike
import ActionSweep.Proofs.Routes.Exact
import ActionSweep.Proofs.Files.Plain
import ActionSweep.Proofs.Files.Making
import ActionSweep.Proofs.Files.Copying
import ActionSweep.Proofs.Deletion.Backup
import ActionSweep.Proofs.Git.Names
import ActionSweep.Proofs.Git.Untracked
import ActionSweep.Proofs.Ignore.Loading
import ActionSweep.Proofs.Files.Failing
import ActionSweep.Proofs.Routes.Faults
import ActionSweep.Proofs.Files.Asking
import ActionSweep.Proofs.Routes.Check
import ActionSweep.Proofs.Files.Landing
import ActionSweep.Proofs.Routes.Unlisted
import ActionSweep.Proofs.Ignore.FailedUpdates
import ActionSweep.Proofs.Session.TypedNumbers
import ActionSweep.Proofs.Report.Table
import ActionSweep.Proofs.Index.Ranking
