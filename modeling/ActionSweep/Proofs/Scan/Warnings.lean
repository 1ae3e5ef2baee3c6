/-
The warnings of a scan, in order: action folders that do not exist, then action files that are no documents,
then candidates that cannot be searched. Each file is warned about once, though action files may be asked
for again: a scan remembers what it has asked for, and so its warnings are a matter of lists of files, just
as its index is.
-/
import ActionSweep.Proofs.Scan.Candidates
import ActionSweep.Proofs.Scan.Steps

namespace ActionSweep

open Outcome (bind_ok filterM_ok Steps)

namespace Scan

/-! ## One file -/

/-- The warning for a file that is asked for a document and has none. -/
def parseWarning? (disk : Disk) (project : Path) (path : Text) : Option Text :=
  match disk.readJson (project.under path) with
  | .ok _ => none
  | .error f => some ("Warning: " ++ path ++ ": could not parse: " ++ f.message)

/-- The warning for a file whose document is nested too deep. -/
def depthWarning? (config : ScanConfig) (disk : Disk) (project : Path) (path : Text) : Option Text :=
  match disk.documentAt project path, config.depth with
  | .null, _ | _, .error _ => none
  | v, .ok limit =>
    match Extract.document v limit with
    | .ok _ => none
    | .error e => some ("Warning: " ++ path ++ ": " ++ e.reason)

/-- The warning for a file whose text cannot be read. -/
def textWarning? (disk : Disk) (project : Path) (path : Text) : Option Text :=
  match disk.readText (project.under path) with
  | .ok _ => none
  | .error f => some ("Warning: could not read " ++ path ++ ": " ++ f.message)

/-- The warning for a candidate, if some files have been asked for before. -/
def searchWarning? (config : ScanConfig) (disk : Disk) (project : Path) (asked : List Text)
    (candidate : Text × Category) : Option Text :=
  match candidate.2 with
  | .structured =>
    if candidate.1 ∈ asked then depthWarning? config disk project candidate.1
    else (parseWarning? disk project candidate.1).or (depthWarning? config disk project candidate.1)
  | .markup | .script => textWarning? disk project candidate.1

/-! ## What a scan remembers -/

/-- The files that were asked for, and the warnings. -/
structure Log where
  asked : List Text
  warnings : List Text

def Log.warn (l : Log) (w : Option Text) : Log := { l with warnings := l.warnings ++ w.toList }

/-- One more file is asked for. -/
def Log.ask (disk : Disk) (project : Path) (l : Log) (path : Text) : Log :=
  match parseWarning? disk project path with
  | none => ⟨l.asked ++ [path], l.warnings⟩
  | some w => if path ∈ l.asked then l else ⟨l.asked ++ [path], l.warnings ++ [w]⟩

/-- One more candidate is searched. -/
def Log.search (config : ScanConfig) (disk : Disk) (project : Path) (l : Log) (candidate : Text × Category) : Log :=
  match candidate.2 with
  | .structured => (l.ask disk project candidate.1).warn (depthWarning? config disk project candidate.1)
  | .markup | .script => l.warn (textWarning? disk project candidate.1)

def logOf (s : Findings) : Log := ⟨s.parsed, s.warnings⟩

variable {config : ScanConfig} {disk : Disk} {project : Path}

theorem mem_asked_ask {l : Log} {path p : Text} : p ∈ (l.ask disk project path).asked ↔ p ∈ l.asked ∨ p = path := by
  unfold Log.ask
  split
  · simp
  · split
    · rename_i hmem
      constructor
      · exact .inl
      · rintro (h | rfl)
        · exact h
        · exact hmem
    · simp

theorem warnings_ask (l : Log) (path : Text) : (l.ask disk project path).warnings =
    l.warnings ++ (if path ∈ l.asked then none else parseWarning? disk project path).toList := by
  unfold Log.ask
  split
  · rename_i hw
    simp [hw]
  · rename_i w hw
    split
    · simp
    · simp [hw]

/-- A document is null wherever its file has cost a warning. -/
theorem depthWarning?_of_parseWarning? {path w : Text} (h : parseWarning? disk project path = some w) :
    depthWarning? config disk project path = none := by
  unfold parseWarning? at h
  unfold depthWarning? Disk.documentAt
  cases hf : disk.readJson (project.under path) with
  | ok v =>
    rw [hf] at h
    cases h
  | error f => rfl

theorem warnings_search (l : Log) (candidate : Text × Category) :
    (l.search config disk project candidate).warnings =
      l.warnings ++ (searchWarning? config disk project l.asked candidate).toList := by
  obtain ⟨path, category⟩ := candidate
  cases category with
  | markup | script => rfl
  | structured =>
    unfold Log.search Log.warn searchWarning?
    simp only [warnings_ask]
    split
    · simp
    · cases hw : parseWarning? disk project path with
      | none => simp
      | some w => simp [depthWarning?_of_parseWarning? hw]

/-! ## Lists of files -/

/-- Files that are asked for one after the other cost their warnings once. -/
theorem foldl_ask (disk : Disk) (project : Path) (warnings paths : List Text) :
    (paths.foldl (Log.ask disk project) ⟨[], warnings⟩).warnings =
        warnings ++ paths.eraseDups.filterMap (parseWarning? disk project) ∧
      ∀ p, p ∈ (paths.foldl (Log.ask disk project) ⟨[], warnings⟩).asked ↔ p ∈ paths := by
  induction paths using List.reverseRecOn with
  | nil => simp
  | append_singleton paths path ih =>
    obtain ⟨hwarnings, hasked⟩ := ih
    simp only [List.foldl_append, List.foldl_cons, List.foldl_nil]
    constructor
    · rw [warnings_ask, hwarnings, eraseDups_concat]
      simp only [hasked]
      split
      · simp
      · rw [List.filterMap_append, List.append_assoc]
        cases hw : parseWarning? disk project path <;> simp [hw]
    · intro p
      rw [mem_asked_ask, hasked]
      simp

/-- Candidates that are all different cost the warnings that each of them would cost first. -/
theorem foldl_search : ∀ {candidates : List (Text × Category)} {l : Log}, (candidates.map (·.1)).Nodup →
    (candidates.foldl (Log.search config disk project) l).warnings =
      l.warnings ++ candidates.filterMap (searchWarning? config disk project l.asked)
  | [], l, _ => by simp
  | c :: candidates, l, h => by
    rw [List.map_cons, List.nodup_cons] at h
    have ih := foldl_search (l := l.search config disk project c) h.2
    have hsame : ∀ d ∈ candidates, searchWarning? config disk project (l.search config disk project c).asked d =
        searchWarning? config disk project l.asked d := by
      -- what was asked for in between is another file
      intro d hd
      have hne : d.1 ≠ c.1 := fun he => h.1 (he ▸ List.mem_map_of_mem hd)
      have hasked : d.1 ∈ (l.search config disk project c).asked ↔ d.1 ∈ l.asked := by
        unfold Log.search Log.warn
        split
        · rw [mem_asked_ask]
          simp [hne]
        · rfl
        · rfl
      unfold searchWarning?
      simp only [hasked]
    rw [List.foldl_cons, ih, warnings_search, List.filterMap_congr hsame, List.append_assoc]
    cases hw : searchWarning? config disk project l.asked c <;> simp [hw]

/-! ## The phases -/

variable (config disk project)

theorem parse_log {path : Text} {s s' : Findings} {v : Value} (h : s.parse disk project path = .ok (v, s')) :
    logOf s' = (logOf s).ask disk project path := by
  unfold Findings.parse at h
  unfold Log.ask parseWarning? logOf
  rcases hr : disk.readJson (project.under path) with f | w
  · rw [hr] at h
    simp only [List.contains_iff_mem] at h ⊢
    split at h
    · split at h
      · rename_i hmem
        cases h
        rw [if_pos hmem]
      · rename_i hmem
        cases h
        rw [if_neg hmem]
        rfl
    · cases h
  · rw [hr] at h
    cases h
    rfl

theorem discoverFile_logs :
    Steps (Findings.discoverFile disk project) (disk.Readable project) logOf (Log.ask disk project) where
  runs := (discoverFile_steps disk project).runs
  needs s path s' h := by
    refine ⟨((discoverFile_steps disk project).needs s path s' h).1, ?_⟩
    unfold Findings.discoverFile at h
    obtain ⟨⟨v, s1⟩, hp, h⟩ := bind_ok.1 h
    rw [← parse_log disk project hp]
    simp only at h
    split at h
    · cases h
      rfl
    · cases h
      rfl

theorem discoverFolder_logs :
    Steps (discoverFolder disk project)
      (fun root => ∃ files, actionFiles disk project root = .ok files ∧ ∀ p ∈ files, disk.Readable project p)
      logOf (fun l root => (filesOf disk project root).foldl (Log.ask disk project) l) where
  runs := (discoverFolder_steps disk project).runs
  needs s root s' h := by
    refine ⟨((discoverFolder_steps disk project).needs s root s' h).1, ?_⟩
    obtain ⟨files, hf, h⟩ := bind_ok.1 h
    unfold filesOf
    rw [((discoverFile_logs disk project).foldlM_ok h).2, hf]

theorem searchFile_logs :
    Steps (Findings.searchFile disk project config.depth) (Searchable config disk project) logOf
      (Log.search config disk project) where
  runs := (searchFile_steps disk project config).runs
  needs s c s' h := by
    refine ⟨((searchFile_steps disk project config).needs s c s' h).1, ?_⟩
    obtain ⟨path, category⟩ := c
    have htext : ∀ {strategy}, s.searchText disk project strategy path = .ok s' →
        logOf s' = (logOf s).warn (textWarning? disk project path) := by
      intro strategy h
      unfold Findings.searchText at h
      unfold Log.warn textWarning?
      cases hr : disk.readText (project.under path) with
      | ok text =>
        rw [hr] at h
        cases h
        simp [logOf, Findings.recordAll]
      | error f =>
        rw [hr] at h
        dsimp only at h
        split at h
        · cases h
          rfl
        · cases h
    cases category with
    | markup => exact htext h
    | script => exact htext h
    | structured =>
      unfold Findings.searchFile Findings.searchDocument at h
      obtain ⟨⟨v, s1⟩, hp, h⟩ := bind_ok.1 h
      obtain ⟨-, rfl, -⟩ := Findings.parse_ok hp
      unfold Log.search Log.warn depthWarning?
      simp only [← parse_log disk project hp]
      simp only at h
      split at h
      · rename_i hnull
        cases h
        simp [hnull]
      · rename_i hne
        obtain ⟨limit, hlimit, h⟩ := bind_ok.1 h
        simp only [hlimit]
        cases hd : Extract.document (disk.documentAt project path) limit with
        | ok raws =>
          rw [hd] at h
          cases h
          simp [logOf, Findings.recordAll]
        | error e =>
          rw [hd] at h
          cases h
          simp [logOf, Findings.warn]

/-- The warnings for action folders that do not exist. -/
def missingFolders (dirs : List Text) : List Text :=
  ((dirs.map project.under).filter fun root => !disk.leadsToFolder root.text).map fun root =>
    "Warning: action directory " ++ root.text ++ " does not exist"

variable {config disk project}

theorem foldl_warn_log (t : Path → Text) (roots : List Path) (s : Findings) :
    logOf (roots.foldl (fun s root => s.warn (t root)) s) = ⟨s.parsed, s.warnings ++ roots.map t⟩ := by
  induction roots generalizing s with
  | nil => simp [logOf]
  | cons root roots ih =>
    rw [List.foldl_cons, ih]
    simp [Findings.warn]

theorem discover_log {dirs : List Text} {s : Findings} (h : discover config disk project = .ok s)
    (hdirs : config.actionDirs = .ok dirs) :
    s.warnings = missingFolders disk project dirs ++
        (actionPaths dirs disk project).eraseDups.filterMap (parseWarning? disk project) ∧
      ∀ p, p ∈ s.parsed ↔ p ∈ actionPaths dirs disk project := by
  unfold discover at h
  obtain ⟨dirs', hdirs', h⟩ := bind_ok.1 h
  obtain rfl : dirs' = dirs := Except.ok.inj (hdirs'.symm.trans hdirs)
  obtain ⟨existing, hex, h⟩ := bind_ok.1 h
  obtain ⟨-, rfl⟩ := filterM_ok.1 hex
  simp only [Disk.holds_isFolder] at h
  split at h
  · obtain ⟨u, hu, -⟩ := bind_ok.1 h
    cases hu
  have hmissing : ((dirs'.map project.under).filter fun root =>
      !((dirs'.map project.under).filter fun root => disk.leadsToFolder root.text).contains root) =
        (dirs'.map project.under).filter fun root => !disk.leadsToFolder root.text := by
    refine List.filter_congr fun root hroot => ?_
    have : ((dirs'.map project.under).filter fun root => disk.leadsToFolder root.text).contains root =
        disk.leadsToFolder root.text := by
      rw [Bool.eq_iff_iff, List.contains_iff_mem, List.mem_filter]
      exact ⟨fun h => h.2, fun h => ⟨hroot, h⟩⟩
    rw [this]
  have hlog := ((discoverFolder_logs disk project).foldlM_ok h).2
  rw [foldl_warn_log, ← List.foldl_flatMap, hmissing] at hlog
  obtain ⟨hwarnings, hasked⟩ := foldl_ask disk project (missingFolders disk project dirs')
    (actionPaths dirs' disk project)
  exact ⟨(congrArg Log.warnings hlog).trans hwarnings, fun p => by
    rw [show s.parsed = (logOf s).asked from rfl, hlog]
    exact hasked p⟩

/-- The warnings of a scan, in order. -/
theorem scan_warnings {s : Scanner} {r : ScanResult} {dirs : List Text} {candidates : List (Text × Category)}
    (h : (s.scan disk).1 = .ok r) (hdirs : s.config.actionDirs = .ok dirs)
    (hall : Candidate.all s.config.rules disk s.project = .ok candidates) :
    r.warnings = missingFolders disk s.project dirs ++
      (actionPaths dirs disk s.project).eraseDups.filterMap (parseWarning? disk s.project) ++
      candidates.filterMap (searchWarning? s.config disk s.project (actionPaths dirs disk s.project)) := by
  obtain ⟨found, done, dirs', folders, hd, he, hdirs', -, rfl, -⟩ := Scanner.scan_stages h
  obtain ⟨hwarnings, hasked⟩ := discover_log hd hdirs
  obtain ⟨candidates', hc, he⟩ := bind_ok.1 he
  obtain rfl : candidates' = candidates := Except.ok.inj (hc.symm.trans hall)
  have hlog := ((searchFile_logs s.config disk s.project).foldlM_ok he).2
  have hsame : searchWarning? s.config disk s.project (logOf found).asked =
      searchWarning? s.config disk s.project (actionPaths dirs disk s.project) := by
    funext c
    unfold searchWarning?
    simp only [logOf, hasked]
  show (logOf done).warnings = _
  rw [hlog, foldl_search (Candidate.nodup_all hall), hsame, show (logOf found).warnings = found.warnings from rfl,
    hwarnings]

end Scan

end ActionSweep
