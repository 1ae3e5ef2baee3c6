/-
A scan without its warnings: discovery declares the documents of the action files in order, and
extraction records what the candidates say in order. Each phase ends well exactly if every file it
asks for is fit for it, so the outcome of a scan is a matter of lists of files.
-/
import ActionSweep.Scan
import ActionSweep.Proofs.Outcome
import ActionSweep.Proofs.Index.Recorded

namespace ActionSweep

open Outcome (bind_ok map_ok mapM_ok filterM_ok Steps)

/-! ## Documents -/

namespace Disk

/-- The document of a file of the project, null if it cannot be read. -/
def documentAt (disk : Disk) (project : Path) (path : Text) : Value :=
  match disk.readJson (project.under path) with
  | .ok v => v
  | .error _ => .null

/-- Whether asking for the document of a file costs a warning at most. -/
def Readable (disk : Disk) (project : Path) (path : Text) : Prop :=
  ∀ f, disk.readJson (project.under path) = .error f → (f.isFile || f.isValue) = true

theorem documentAt_ok {disk : Disk} {project : Path} {path : Text} {v : Value}
    (h : disk.readJson (project.under path) = .ok v) : disk.documentAt project path = v := by
  unfold documentAt
  rw [h]

theorem documentAt_error {disk : Disk} {project : Path} {path : Text} {f : Fault}
    (h : disk.readJson (project.under path) = .error f) : disk.documentAt project path = .null := by
  unfold documentAt
  rw [h]

/-- A document that declares an action was read. -/
theorem readJson_of_declares {disk : Disk} {project : Path} {path : Text}
    (h : (disk.documentAt project path).declaresAction = true) :
    disk.readJson (project.under path) = .ok (disk.documentAt project path) := by
  cases hr : disk.readJson (project.under path) with
  | ok v => rw [documentAt_ok hr]
  | error f =>
    rw [documentAt_error hr] at h
    cases h

theorem holds_isFolder (disk : Disk) (path : Text) :
    Outcome.holds (disk.isFolder path) = disk.leadsToFolder path := by
  unfold Outcome.holds leadsToFolder
  rcases disk.isFolder path with f | b
  · rfl
  · rfl

end Disk

namespace Findings

variable {disk : Disk} {project : Path}

theorem parse_ok {path : Text} {s s' : Findings} {v : Value}
    (h : s.parse disk project path = .ok (v, s')) :
    disk.Readable project path ∧ v = disk.documentAt project path ∧ s'.index = s.index := by
  unfold parse at h
  unfold Disk.Readable Disk.documentAt
  rcases hr : disk.readJson (project.under path) with f | w
  · rw [hr] at h
    simp only at h
    split at h
    · rename_i hf
      split at h
      · cases h
        exact ⟨by rintro _ ⟨⟩; exact hf, rfl, rfl⟩
      · cases h
        exact ⟨by rintro _ ⟨⟩; exact hf, rfl, rfl⟩
    · cases h
  · rw [hr] at h
    cases h
    exact ⟨by rintro _ ⟨⟩, rfl, rfl⟩

theorem parse_runs {path : Text} (h : disk.Readable project path) (s : Findings) :
    ∃ s', s.parse disk project path = .ok (disk.documentAt project path, s') := by
  unfold parse
  unfold Disk.Readable at h
  unfold Disk.documentAt
  rcases hr : disk.readJson (project.under path) with f | w
  · rw [hr] at h
    simp only [h f rfl, if_true]
    split
    · exact ⟨_, rfl⟩
    · exact ⟨_, rfl⟩
  · exact ⟨_, rfl⟩

end Findings

/-! ## Discovery -/

namespace Scan

/-- Declares the action of a file, if its document is one. -/
def declareFile (disk : Disk) (project : Path) (i : Index) (path : Text) : Index :=
  if (disk.documentAt project path).declaresAction then
    i.declare (Key.ofDeclaration path) path (disk.documentAt project path)
  else i

/-- The JSON files below an action folder, none if they cannot be listed. -/
def filesOf (disk : Disk) (project root : Path) : List Text :=
  match actionFiles disk project root with
  | .ok files => files
  | .error _ => []

/-- The JSON files below all action folders that exist. -/
def actionPaths (dirs : List Text) (disk : Disk) (project : Path) : List Text :=
  ((dirs.map project.under).filter fun root => disk.leadsToFolder root.text).flatMap
    (filesOf disk project)

/-- The index after discovery. -/
def declared (dirs : List Text) (disk : Disk) (project : Path) : Index :=
  (actionPaths dirs disk project).foldl (declareFile disk project) .empty

/-- What discovery needs to end well. -/
structure Discoverable (config : ScanConfig) (disk : Disk) (project : Path) (dirs : List Text) : Prop where
  dirs_eq : config.actionDirs = .ok dirs
  asks : ∀ d ∈ dirs, ∃ b, disk.isFolder (project.under d).text = .ok b
  exists_folder : ∃ d ∈ dirs, disk.leadsToFolder (project.under d).text = true
  lists : ∀ d ∈ dirs, disk.leadsToFolder (project.under d).text = true →
    ∃ files, actionFiles disk project (project.under d) = .ok files
  readable : ∀ path ∈ actionPaths dirs disk project, disk.Readable project path

variable (disk : Disk) (project : Path)

theorem discoverFile_steps :
    Steps (Findings.discoverFile disk project) (disk.Readable project) Findings.index
      (declareFile disk project) where
  runs s path h := by
    obtain ⟨s', hs'⟩ := Findings.parse_runs h s
    unfold Findings.discoverFile
    rw [hs']
    simp only [bind, Except.bind]
    split
    · exact ⟨_, rfl⟩
    · exact ⟨_, rfl⟩
  needs s path s' h := by
    unfold Findings.discoverFile at h
    obtain ⟨⟨v, s1⟩, hp, h⟩ := bind_ok.1 h
    obtain ⟨hread, rfl, hi⟩ := Findings.parse_ok hp
    refine ⟨hread, ?_⟩
    unfold declareFile
    simp only at h
    split at h
    · rename_i hd
      cases h
      simp [hd, hi]
    · rename_i hd
      cases h
      simp [hd, hi]

/-- Declares the actions of one action folder. -/
def discoverFolder (s : Findings) (root : Path) : Except Fault Findings := do
  (← actionFiles disk project root).foldlM (Findings.discoverFile disk project) s

theorem discoverFolder_steps :
    Steps (discoverFolder disk project)
      (fun root => ∃ files, actionFiles disk project root = .ok files ∧ ∀ p ∈ files, disk.Readable project p)
      Findings.index (fun i root => (filesOf disk project root).foldl (declareFile disk project) i) where
  runs s root h := by
    obtain ⟨files, hf, hr⟩ := h
    obtain ⟨s', hs'⟩ := (discoverFile_steps disk project).foldlM_runs s hr
    exact ⟨s', bind_ok.2 ⟨files, hf, hs'⟩⟩
  needs s root s' h := by
    obtain ⟨files, hf, h⟩ := bind_ok.1 h
    obtain ⟨hr, hv⟩ := (discoverFile_steps disk project).foldlM_ok h
    refine ⟨⟨files, hf, hr⟩, ?_⟩
    unfold filesOf
    rw [hv, hf]

theorem foldl_warn_index (t : Path → Text) (roots : List Path) (s : Findings) :
    (roots.foldl (fun s root => s.warn (t root)) s).index = s.index := by
  induction roots generalizing s with
  | nil => rfl
  | cons root roots ih => rw [List.foldl_cons, ih]; rfl

variable {disk project} {config : ScanConfig}

theorem discover_ok {s : Findings} (h : discover config disk project = .ok s) :
    ∃ dirs, Discoverable config disk project dirs ∧ s.index = declared dirs disk project := by
  unfold discover at h
  obtain ⟨dirs, hdirs, h⟩ := bind_ok.1 h
  obtain ⟨existing, hex, h⟩ := bind_ok.1 h
  obtain ⟨hasks, rfl⟩ := filterM_ok.1 hex
  simp only [Disk.holds_isFolder] at h
  split at h
  · obtain ⟨u, hu, -⟩ := bind_ok.1 h
    cases hu
  · rename_i hne
    obtain ⟨hfit, hview⟩ := (discoverFolder_steps disk project).foldlM_ok h
    rw [foldl_warn_index, ← List.foldl_flatMap] at hview
    have hroots : ∀ d ∈ dirs, disk.leadsToFolder (project.under d).text = true →
        project.under d ∈ (dirs.map project.under).filter fun root => disk.leadsToFolder root.text :=
      fun d hd hf => List.mem_filter.2 ⟨List.mem_map_of_mem hd, hf⟩
    refine ⟨dirs, ⟨hdirs, fun d hd => hasks _ (List.mem_map_of_mem hd), ?_, fun d hd hf => ?_, ?_⟩, hview⟩
    · simpa using hne
    · obtain ⟨files, hfiles, -⟩ := hfit _ (hroots d hd hf)
      exact ⟨files, hfiles⟩
    · intro path hpath
      obtain ⟨root, hroot, hpath⟩ := List.mem_flatMap.1 hpath
      obtain ⟨files, hfiles, hread⟩ := hfit root hroot
      unfold filesOf at hpath
      rw [hfiles] at hpath
      exact hread path hpath

theorem discover_runs {dirs : List Text} (h : Discoverable config disk project dirs) :
    ∃ s, discover config disk project = .ok s := by
  have hasks : ∀ root ∈ dirs.map project.under, ∃ b, disk.isFolder root.text = .ok b := by
    intro root hroot
    obtain ⟨d, hd, rfl⟩ := List.mem_map.1 hroot
    exact h.asks d hd
  have hfit : ∀ root ∈ (dirs.map project.under).filter fun root => disk.leadsToFolder root.text,
      ∃ files, actionFiles disk project root = .ok files ∧ ∀ p ∈ files, disk.Readable project p := by
    intro root hroot
    obtain ⟨hm, hf⟩ := List.mem_filter.1 hroot
    obtain ⟨d, hd, rfl⟩ := List.mem_map.1 hm
    obtain ⟨files, hfiles⟩ := h.lists d hd hf
    refine ⟨files, hfiles, fun p hp => h.readable p (List.mem_flatMap.2 ⟨_, hroot, ?_⟩)⟩
    unfold filesOf
    rw [hfiles]
    exact hp
  have hne : ((dirs.map project.under).filter fun root => disk.leadsToFolder root.text).isEmpty ≠ true := by
    obtain ⟨d, hd, hf⟩ := h.exists_folder
    rw [ne_eq, List.isEmpty_iff]
    exact List.ne_nil_of_mem (List.mem_filter.2 ⟨List.mem_map_of_mem hd, hf⟩)
  unfold discover
  rw [h.dirs_eq]
  have hex := filterM_ok.2 ⟨hasks, rfl⟩
  simp only [Disk.holds_isFolder] at hex
  simp only [bind, Except.bind, hex, hne, Bool.false_eq_true, if_false]
  exact (discoverFolder_steps disk project).foldlM_runs _ hfit

/-! ## Extraction -/

/-- What a candidate says: nothing, if it cannot be read or is nested too deep. -/
def referencesIn (config : ScanConfig) (disk : Disk) (project : Path) (candidate : Text × Category) :
    List RawReference :=
  match candidate.2 with
  | .structured =>
    match disk.readJson (project.under candidate.1), config.depth with
    | .ok v, .ok limit =>
      match Extract.document v limit with
      | .ok raws => raws
      | .error _ => []
    | _, _ => []
  | .markup =>
    match disk.readText (project.under candidate.1) with
    | .ok t => Extract.markup t
    | .error _ => []
  | .script =>
    match disk.readText (project.under candidate.1) with
    | .ok t => Extract.script t
    | .error _ => []

/-- What a candidate says, with its path. -/
def findingsIn (config : ScanConfig) (disk : Disk) (project : Path) (candidate : Text × Category) :
    List Finding :=
  (referencesIn config disk project candidate).map fun raw => ⟨candidate.1, raw⟩

/-- Every reference that the candidates of a project hold, in the order of the walks. -/
def findings (config : ScanConfig) (disk : Disk) (project : Path) : Except Fault (List Finding) := do
  return (← Candidate.all config.rules disk project).flatMap (findingsIn config disk project)

/-- Whether a candidate can be searched, at the cost of a warning at most. -/
def Searchable (config : ScanConfig) (disk : Disk) (project : Path) (candidate : Text × Category) : Prop :=
  match candidate.2 with
  | .structured =>
    disk.Readable project candidate.1 ∧
      (disk.documentAt project candidate.1 ≠ .null → ∃ limit, config.depth = .ok limit)
  | .markup | .script =>
    ∀ f, disk.readText (project.under candidate.1) = .error f → f.isFile = true

theorem recordAll_eq (s : Findings) (source : Text) (raws : List RawReference) :
    (s.recordAll source raws).index = s.index.recordAll (raws.map fun raw => ⟨source, raw⟩) := by
  unfold Findings.recordAll Index.recordAll
  rw [List.foldl_map]

theorem referencesIn_of_null {path : Text} (h : disk.documentAt project path = .null) :
    referencesIn config disk project (path, .structured) = [] := by
  unfold referencesIn
  unfold Disk.documentAt at h
  rcases hr : disk.readJson (project.under path) with f | v
  · rfl
  · rw [hr] at h
    simp only at h
    subst h
    rcases config.depth with f | limit
    · rfl
    · simp only [Extract.document, Extract.containerCount, Extract.walk, Extract.containersIn]
      split
      · rename_i hd
        split at hd
        · cases hd
        · cases hd; rfl
      · rfl

theorem searchText_ok {strategy : Text → List RawReference} {s s' : Findings} {path : Text}
    (h : s.searchText disk project strategy path = .ok s') :
    (∀ f, disk.readText (project.under path) = .error f → f.isFile = true) ∧
      s'.index = s.index.recordAll
        ((match disk.readText (project.under path) with
          | .ok t => strategy t
          | .error _ => []).map fun raw => ⟨path, raw⟩) := by
  unfold Findings.searchText at h
  rcases hr : disk.readText (project.under path) with f | t
  · rw [hr] at h
    simp only at h
    split at h
    · rename_i hf
      cases h
      exact ⟨by rintro _ ⟨⟩; exact hf, rfl⟩
    · cases h
  · rw [hr] at h
    cases h
    exact ⟨by rintro _ ⟨⟩, recordAll_eq s path _⟩

theorem searchText_runs {strategy : Text → List RawReference} {path : Text}
    (h : ∀ f, disk.readText (project.under path) = .error f → f.isFile = true) (s : Findings) :
    ∃ s', s.searchText disk project strategy path = .ok s' := by
  unfold Findings.searchText
  rcases hr : disk.readText (project.under path) with f | t
  · simp only [h f hr, if_true]
    exact ⟨_, rfl⟩
  · exact ⟨_, rfl⟩

theorem searchDocument_ok {s s' : Findings} {path : Text}
    (h : s.searchDocument disk project config.depth path = .ok s') :
    Searchable config disk project (path, .structured) ∧
      s'.index = s.index.recordAll (findingsIn config disk project (path, .structured)) := by
  unfold Findings.searchDocument at h
  obtain ⟨⟨v, s1⟩, hp, h⟩ := bind_ok.1 h
  obtain ⟨hread, hv, hi⟩ := Findings.parse_ok hp
  simp only at h
  split at h
  · cases h
    refine ⟨⟨hread, fun hne => absurd hv.symm hne⟩, ?_⟩
    unfold findingsIn
    rw [referencesIn_of_null hv.symm, hi]
    rfl
  · rename_i hne
    obtain ⟨limit, hlimit, h⟩ := bind_ok.1 h
    refine ⟨⟨hread, fun _ => ⟨limit, hlimit⟩⟩, ?_⟩
    have hread' : disk.readJson (project.under path) = .ok v := by
      unfold Disk.documentAt at hv
      rcases hr : disk.readJson (project.under path) with f | w
      · rw [hr] at hv; exact absurd hv hne
      · rw [hr] at hv; rw [hv]
    unfold findingsIn referencesIn
    simp only [hread', hlimit]
    rcases hd : Extract.document v limit with e | raws
    · rw [hd] at h
      cases h
      exact hi
    · rw [hd] at h
      cases h
      rw [recordAll_eq, hi]

theorem searchDocument_runs {path : Text} (h : Searchable config disk project (path, .structured))
    (s : Findings) : ∃ s', s.searchDocument disk project config.depth path = .ok s' := by
  obtain ⟨hread, hdepth⟩ := h
  obtain ⟨s1, hp⟩ := Findings.parse_runs hread s
  unfold Findings.searchDocument
  rw [hp]
  simp only [bind, Except.bind]
  split
  · exact ⟨_, rfl⟩
  · rename_i v hne
    obtain ⟨limit, hlimit⟩ := hdepth hne
    rw [hlimit]
    simp only
    split
    · exact ⟨_, rfl⟩
    · exact ⟨_, rfl⟩

variable (config disk project)

theorem searchFile_steps :
    Steps (Findings.searchFile disk project config.depth) (Searchable config disk project) Findings.index
      (fun i c => i.recordAll (findingsIn config disk project c)) where
  runs s c h := by
    obtain ⟨path, category⟩ := c
    cases category with
    | markup => exact searchText_runs h s
    | structured => exact searchDocument_runs h s
    | script => exact searchText_runs h s
  needs s c s' h := by
    obtain ⟨path, category⟩ := c
    cases category with
    | markup => exact searchText_ok h
    | structured => exact searchDocument_ok h
    | script => exact searchText_ok h

theorem foldl_recordAll (l : List (Text × Category)) (i : Index) :
    l.foldl (fun i c => i.recordAll (findingsIn config disk project c)) i =
      i.recordAll (l.flatMap (findingsIn config disk project)) := by
  induction l generalizing i with
  | nil => rfl
  | cons c l ih => rw [List.foldl_cons, ih, List.flatMap_cons, Index.recordAll_append]

variable {config disk project}

theorem extract_ok {s s' : Findings} (h : extract config disk project s = .ok s') :
    ∃ candidates, Candidate.all config.rules disk project = .ok candidates ∧
      (∀ c ∈ candidates, Searchable config disk project c) ∧
      s'.index = s.index.recordAll (candidates.flatMap (findingsIn config disk project)) := by
  obtain ⟨candidates, hc, h⟩ := bind_ok.1 h
  obtain ⟨hfit, hview⟩ := (searchFile_steps disk project config).foldlM_ok h
  exact ⟨candidates, hc, hfit, by rw [hview, foldl_recordAll]⟩

theorem extract_runs {candidates : List (Text × Category)}
    (hc : Candidate.all config.rules disk project = .ok candidates)
    (h : ∀ c ∈ candidates, Searchable config disk project c) (s : Findings) :
    ∃ s', extract config disk project s = .ok s' := by
  obtain ⟨s', hs'⟩ := (searchFile_steps disk project config).foldlM_runs s h
  exact ⟨s', bind_ok.2 ⟨candidates, hc, hs'⟩⟩

end Scan

/-! ## The whole scan -/

namespace Scanner

open Scan

/-- Everything that a scan which ends well has met. -/
structure Completed (config : ScanConfig) (disk : Disk) (project : Path) (dirs : List Text)
    (candidates : List (Text × Category)) (folders : List EmptyFolder) : Prop where
  discoverable : Discoverable config disk project dirs
  candidates_eq : Candidate.all config.rules disk project = .ok candidates
  searchable : ∀ c ∈ candidates, Searchable config disk project c
  folders_eq : EmptyFolders.find disk project dirs = .ok folders

theorem Completed.dirs_unique {config : ScanConfig} {disk : Disk} {project : Path} {dirs dirs' : List Text}
    {candidates : List (Text × Category)} {folders : List EmptyFolder}
    (h : Completed config disk project dirs candidates folders) (hdirs : config.actionDirs = .ok dirs') :
    dirs' = dirs :=
  Except.ok.inj (hdirs.symm.trans h.discoverable.dirs_eq)

/-- The index at the end of a scan. -/
def finalIndex (config : ScanConfig) (disk : Disk) (project : Path) (dirs : List Text)
    (candidates : List (Text × Category)) : Index :=
  (declared dirs disk project).recordAll (candidates.flatMap (findingsIn config disk project))

/-- A scan that gives a result has got through its phases one after the other. -/
theorem scan_stages {s : Scanner} {disk : Disk} {r : ScanResult} (h : (s.scan disk).1 = .ok r) :
    ∃ found done dirs folders, discover s.config disk s.project = .ok found ∧
      extract s.config disk s.project found = .ok done ∧ s.config.actionDirs = .ok dirs ∧
      EmptyFolders.find disk s.project dirs = .ok folders ∧
      r = ⟨rank done.index.actions, folders, done.warnings, done.index.unresolved⟩ ∧
      (s.scan disk).2 = s.moved .classified := by
  unfold scan at h ⊢
  rcases hready : s.readied with f | s1
  · rw [hready] at h; cases h
  -- getting ready changes the state of the scanner only
  have hsame : s1.config = s.config ∧ s1.project = s.project := by
    unfold readied at hready
    split at hready
    · cases hready; exact ⟨rfl, rfl⟩
    · obtain ⟨t, -, rfl⟩ := map_ok.1 hready
      exact ⟨rfl, rfl⟩
  rw [hready] at h
  simp only [moved, hsame.1, hsame.2] at h ⊢
  rcases hd : discover s.config disk s.project with f | found
  · rw [hd] at h; cases h
  rw [hd] at h
  simp only at h ⊢
  rcases hf : (extract s.config disk s.project found >>= finish s.config disk s.project) with f | r'
  · rw [hf] at h; cases h
  rw [hf] at h
  cases h
  obtain ⟨done, he, hf⟩ := bind_ok.1 hf
  obtain ⟨dirs, hdirs, hf⟩ := bind_ok.1 hf
  obtain ⟨folders, hfolders, hf⟩ := bind_ok.1 hf
  cases hf
  exact ⟨found, done, dirs, folders, rfl, he, hdirs, hfolders, rfl, rfl⟩

/-- A scan that gives a result shows the index at the end of its phases. -/
theorem scan_ok {s : Scanner} {disk : Disk} {r : ScanResult} (h : (s.scan disk).1 = .ok r) :
    ∃ dirs candidates folders, Completed s.config disk s.project dirs candidates folders ∧
      r.actions = rank (finalIndex s.config disk s.project dirs candidates).actions ∧
      r.unresolved = (finalIndex s.config disk s.project dirs candidates).unresolved ∧
      r.emptyFolders = folders ∧ (s.scan disk).2 = s.moved .classified := by
  obtain ⟨found, done, dirs', folders, hd, he, hdirs', hfolders, rfl, hstate⟩ := scan_stages h
  obtain ⟨dirs, hdisc, hi⟩ := discover_ok hd
  obtain ⟨candidates, hc, hs, hi'⟩ := extract_ok he
  obtain rfl : dirs' = dirs := Except.ok.inj (hdirs'.symm.trans hdisc.dirs_eq)
  rw [hi] at hi'
  exact ⟨dirs', candidates, folders, ⟨hdisc, hc, hs, hfolders⟩, by rw [hi']; rfl, by rw [hi']; rfl, rfl, hstate⟩

/-- A scanner that may start gives a result if every phase of the scan can end well. -/
theorem scan_runs {s : Scanner} {disk : Disk} {dirs : List Text} {candidates : List (Text × Category)}
    {folders : List EmptyFolder} (hs : s.state = .idle ∨ s.state = .classified ∨ s.state = .failed)
    (h : Completed s.config disk s.project dirs candidates folders) :
    ∃ r, (s.scan disk).1 = .ok r := by
  obtain ⟨found, hd⟩ := discover_runs h.discoverable
  obtain ⟨done, he⟩ := extract_runs h.candidates_eq h.searchable found
  have hready : ∃ s1, s.readied = .ok s1 ∧ s1.config = s.config ∧ s1.project = s.project := by
    unfold readied
    rcases hs with hs | hs | hs
    · exact ⟨s, by rw [if_pos hs], rfl, rfl⟩
    · exact ⟨s.moved .idle, by rw [if_neg (by rw [hs]; decide)]; simp [advance, ScanState.advance, ScanState.next, hs, Except.map], rfl, rfl⟩
    · exact ⟨s.moved .idle, by rw [if_neg (by rw [hs]; decide)]; simp [advance, ScanState.advance, ScanState.next, hs, Except.map], rfl, rfl⟩
  obtain ⟨s1, hready, hconfig, hproject⟩ := hready
  unfold scan
  rw [hready]
  simp only [moved, hconfig, hproject, hd]
  have hf : finish s.config disk s.project done =
      .ok ⟨rank done.index.actions, folders, done.warnings, done.index.unresolved⟩ := by
    unfold finish
    rw [h.discoverable.dirs_eq]
    simp only [bind, Except.bind, h.folders_eq]
    rfl
  rw [bind_ok.2 ⟨done, he, hf⟩]
  exact ⟨_, rfl⟩

end Scanner

end ActionSweep
