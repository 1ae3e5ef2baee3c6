/-
What a scan under the standard settings makes of files that it cannot use. Reading a file of a project can
fail in many ways, and each of them is a warning, except that brackets which nest too deep to be read stop
the scan, and so does a path below an action folder that is too long to be asked about. So a scan gives a result
exactly if no JSON file that it asks for is of that kind, and there is no such path. A file that it
cannot use has cost a warning, declares no action and refers to nothing; one that it can read but not search
still declares its action.
-/
import ActionSweep.Proofs.Scan.EmptyFolders
import ActionSweep.Proofs.Scan.Warnings
import ActionSweep.Proofs.Settings.Coverage

namespace ActionSweep

open Outcome (bind_ok mapM_ok)
open ScanSettings (standardBases standardConfig standardDirs standardRules IsCandidate)

variable {disk : Disk} {project : Path} {place : List Text} {tree : Dir} {file : Text}

/-! ## Faults of one file -/

/-- The brackets of a file nest deeper than they can be read. -/
def Disk.TooDeep (disk : Disk) (project : Path) (file : Text) : Prop :=
  ∃ f innermost, disk.readJson (project.under file) = .error (.json f) ∧ f.problem = .nesting innermost

/-- All faults of a file of a project cost a warning at most, but for brackets that nest too deep. -/
theorem IsProjectFile.readable_iff (h : IsProjectFile tree file) (hp : disk.HasProject project place tree) :
    disk.Readable project file ↔ ¬ disk.TooDeep project file := by
  obtain ⟨b, hb⟩ := h.stands
  have hread := h.read_eq hp hb
  constructor
  · rintro hreadable ⟨f, innermost, hf, hproblem⟩
    have hvalue := hreadable _ hf
    simp only [Fault.isFile, Fault.isValue, hproblem, Bool.or_self, Bool.false_eq_true] at hvalue
  · intro hdeep f hf
    unfold Disk.TooDeep at hdeep
    unfold Disk.readJson at hf hdeep
    rw [hread] at hf hdeep
    split at hf
    · cases hf
      rfl
    · rename_i hlong
      rw [if_neg hlong] at hdeep
      simp only [bind, Except.bind] at hf hdeep
      cases hdecoded : Utf8.strictUnmarked b with
      | error g =>
        rw [hdecoded] at hf
        cases hf
        rfl
      | ok t =>
        simp only [hdecoded, Except.mapError] at hf hdeep
        cases hvalue : Json.readWithin disk.around.nesting t.unifyLines with
        | ok v =>
          rw [hvalue] at hf
          cases hf
        | error g =>
          simp only [hvalue] at hf hdeep
          cases hf
          cases hproblem : g.problem with
          | nesting innermost => exact absurd ⟨g, innermost, rfl, hproblem⟩ hdeep
          | _ => simp [Fault.isFile, Fault.isValue, hproblem]

theorem IsProjectFile.readText_error (h : IsProjectFile tree file) (hp : disk.HasProject project place tree)
    {f : Fault} (hf : disk.readText (project.under file) = .error f) : f.isFile = true := by
  obtain ⟨b, hb⟩ := h.stands
  unfold Disk.readText at hf
  rw [h.read_eq hp hb] at hf
  split at hf
  · cases hf
    rfl
  · cases hf

/-! ## Folders that can be asked about -/

/-- Of all folders that a scan asks about, none has a longer path than that of the extensions. -/
theorem standard_asks (hp : disk.HasProject project place tree)
    (hlong : (Utf8.encode (project.under "extensions").text).length ≤ Disk.pathLimit) {folder : Text}
    (hfolder : folder ∈ standardBases ++ standardDirs) : ∃ b, disk.isFolder (project.under folder).text = .ok b := by
  have hall : ∀ t ∈ standardBases ++ standardDirs, Path.anchorOf t = .here ∧ Path.partsOf t ≠ [] ∧
      (Utf8.encode (Text.join "/" (Path.partsOf t))).length ≤ (Utf8.encode "extensions").length := by
    decide +kernel
  have hnames : ∀ t ∈ standardBases ++ standardDirs, ∀ n ∈ Path.partsOf t, IsName n := by
    decide +kernel
  obtain ⟨hhere, hne, hshort⟩ := hall folder hfolder
  have hunder : project.under folder = ⟨project.anchor, project.parts ++ Path.partsOf folder⟩ := if_pos hhere
  rw [hunder]
  refine (hp.asks_iff (hnames folder hfolder)).2 (Nat.le_trans ?_ hlong)
  obtain ⟨front, hfront⟩ := project.text_below
  rw [hfront _ hne, show project.under "extensions" = ⟨project.anchor, project.parts ++ [("extensions" : Text)]⟩ from rfl,
    hfront _ (List.cons_ne_nil _ _)]
  unfold Utf8.encode at hshort ⊢
  rw [List.flatMap_append, List.flatMap_append, List.length_append, List.length_append]
  exact Nat.add_le_add_left hshort _

/-- An action folder that can be listed is a folder of the project. -/
theorem standard_folder (hp : disk.HasProject project place tree) {dir : Text} (hdir : dir ∈ standardDirs) {d : Dir}
    (hlist : disk.list (project.under dir).text = .ok d) :
    Path.anchorOf dir = .here ∧ tree.find? (Path.partsOf dir) = some (.folder d) := by
  obtain ⟨hhere, hdesc⟩ := ScanSettings.standardDirs_lead_down dir hdir
  rw [show project.under dir = ⟨project.anchor, project.parts ++ Path.partsOf dir⟩ from if_pos hhere] at hlist
  exact ⟨hhere, hp.folder_of_list hdesc hlist⟩

/-! ## Scans that give a result -/

/-- The JSON files that a scan asks for: those in action folders, and the candidates that are structured. -/
def Asked (disk : Disk) (project : Path) (tree : Dir) (file : Text) : Prop :=
  IsActionFile tree file ∨ IsCandidate standardRules disk project tree file .structured

theorem Asked.isProjectFile (h : Asked disk project tree file) : IsProjectFile tree file := by
  rcases h with h | h
  · exact h.1.1
  · exact h.isFile

/-- A file that a scan asks for is searched as a document, if at all. -/
theorem Asked.category (h : Asked disk project tree file) {category : Category}
    (hclassified : standardRules.classify file = some category) : category = .structured := by
  rcases h with hfile | hother
  · obtain ⟨⟨hproject, -⟩, dir, hdir, more, -, hparts⟩ := hfile
    have happ : ∃ parts, Path.partsOf file = ("app" : Text) :: parts := by
      have hdirs : ∀ dir ∈ standardDirs, ∃ name : Text, Path.partsOf dir = [("app" : Text), name] := by
        intro dir hdir
        simp only [standardDirs, List.mem_cons, List.not_mem_nil, or_false] at hdir
        rcases hdir with rfl | rfl
        · exact ⟨"api", rfl⟩
        · exact ⟨"lib", rfl⟩
      obtain ⟨name, hname⟩ := hdirs dir hdir
      exact ⟨name :: more, by rw [hparts, hname]; rfl⟩
    obtain ⟨parts, happ⟩ := happ
    have htext : file = Text.join "/" (("app" : Text) :: parts) := by
      rw [← happ, ← Path.text_here hproject.nonempty]
      exact hproject.text_eq
    rw [htext] at hclassified
    exact ScanSettings.structured_of_app (fun p hm => (hproject.descends p (happ ▸ hm)).1) hclassified
  · exact Option.some.inj (hclassified.symm.trans hother.classified)

/-- Whether a scan gives a result depends on these files, and on whether its folders can be asked about, and all that is in
those of the actions. -/
structure Scannable (disk : Disk) (project : Path) (tree : Dir) : Prop where
  shallow : ∀ file, Asked disk project tree file → ¬ disk.TooDeep project file
  asks : (Utf8.encode (project.under "extensions").text).length ≤ Disk.pathLimit
  short : ∀ dir ∈ standardDirs, Scan.ShortBelow project tree dir

theorem Scannable.discoverable (h : Scannable disk project tree) (hp : disk.HasProject project place tree)
    (hfolder : ∃ dir ∈ standardDirs, ∃ d, tree.find? (Path.partsOf dir) = some (.folder d)) :
    Scan.Discoverable standardConfig disk project standardDirs where
  dirs_eq := rfl
  asks dir hdir := standard_asks hp h.asks (List.mem_append_right _ hdir)
  exists_folder := by
    obtain ⟨dir, hdir, hstands⟩ := hfolder
    obtain ⟨hhere, hdesc⟩ := ScanSettings.standardDirs_lead_down dir hdir
    exact ⟨dir, hdir, (hp.leadsToFolder_iff hhere hdesc (standard_asks hp h.asks (List.mem_append_right _ hdir))).2 hstands⟩
  lists dir hdir hleads := by
    obtain ⟨d, hlist⟩ := Disk.list_of_isFolder (Disk.isFolder_of_leadsToFolder hleads)
    obtain ⟨hhere, hd⟩ := standard_folder hp hdir hlist
    exact Scan.actionFiles_runs hhere hlist (Scan.canEnter_of_short hp.hasTree hhere hd (h.short dir hdir))
  readable path hpath := by
    have hfile : IsActionFile tree path :=
      Scan.isJsonFile_of_mem_actionPaths hp ScanSettings.standardDirs_lead_down hpath
    exact (hfile.1.1.readable_iff hp).2 (h.shallow path (.inl hfile))

theorem Scannable.completed (h : Scannable disk project tree) (hp : disk.HasProject project place tree)
    (hfolder : ∃ dir ∈ standardDirs, ∃ d, tree.find? (Path.partsOf dir) = some (.folder d)) :
    ∃ candidates folders, Scanner.Completed standardConfig disk project standardDirs candidates folders := by
  obtain ⟨candidates, hall⟩ := Candidate.all_runs (show standardRules.bases = .ok standardBases from rfl) fun base hbase =>
    standard_asks hp h.asks (List.mem_append_left _ hbase)
  obtain ⟨folders, hfolders⟩ := EmptyFolders.find_runs hp ScanSettings.standardDirs_lead_down
    (fun dir hdir => standard_asks hp h.asks (List.mem_append_right _ hdir)) fun dir hdir d hlist => by
      obtain ⟨hhere, hd⟩ := standard_folder hp hdir hlist
      exact (EmptyFolders.canAsk_iff_short hp hhere hd).2 (h.short dir hdir)
  refine ⟨candidates, folders, h.discoverable hp hfolder, hall, fun c hc => ?_, hfolders⟩
  obtain ⟨path, category⟩ := c
  have hcandidate := (ScanSettings.standard_mem_all_iff hp hall).1 hc
  cases category with
  | structured =>
    exact ⟨(hcandidate.isFile.readable_iff hp).2 (h.shallow path (.inr hcandidate)), fun _ => ⟨_, rfl⟩⟩
  | markup | script => exact fun f hf => hcandidate.isFile.readText_error hp hf

/-- What a scan under the standard settings has got through when it gives a result. -/
theorem Scannable.of_completed (hp : disk.HasProject project place tree) {candidates : List (Text × Category)}
    {folders : List EmptyFolder}
    (h : Scanner.Completed standardConfig disk project standardDirs candidates folders) :
    Scannable disk project tree where
  shallow file hasked := by
    refine (hasked.isProjectFile.readable_iff hp).1 ?_
    rcases hasked with hfile | hcandidate
    · exact h.discoverable.readable file
        ((Scan.mem_actionPaths_iff hp h.discoverable ScanSettings.standardDirs_lead_down).2 hfile)
    · exact (h.searchable _ ((ScanSettings.standard_mem_all_iff hp h.candidates_eq).2 hcandidate)).1
  asks := by
    obtain ⟨bases, lists, hbases, hlists, -⟩ := Candidate.all_ok.1 h.candidates_eq
    obtain rfl : standardBases = bases := Except.ok.inj hbases
    obtain ⟨files, -, hfiles⟩ := forall₂_mem_left (mapM_ok.1 hlists) (show ("extensions" : Text) ∈ standardBases by decide)
    have hasked : ∃ b, disk.isFolder (project.under "extensions").text = .ok b := by
      rcases Candidate.filesFrom_ok.1 hfiles with ⟨hb, -⟩ | ⟨d, hb, -⟩
      · exact ⟨false, hb⟩
      · exact ⟨true, hb⟩
    exact (hp.asks_iff (show ∀ n ∈ (["extensions"] : List Text), IsName n by decide +kernel)).1 hasked
  short dir hdir more e hne he := by
    obtain ⟨hhere, -⟩ := ScanSettings.standardDirs_lead_down dir hdir
    obtain ⟨d, hd, -⟩ := Dir.find?_folder_of_append hne he
    obtain ⟨found, hfound, -⟩ := EmptyFolders.find_ok.1 ⟨_, h.folders_eq⟩ dir hdir
    rcases EmptyFolders.findBelow_ok.1 hfound with ⟨hb, -⟩ | ⟨d', -, hlist, hasks, -⟩
    · cases hp.hasTree.isFolder_standing hhere hd hb
    · exact (EmptyFolders.canAsk_iff_short hp hhere (standard_folder hp hdir hlist).2).1 hasks more e hne he

/-! ## Files that are left out -/

/-- A file of which a result has nothing but a warning. -/
structure ScanResult.LeavesOut (r : ScanResult) (file warning : Text) : Prop where
  warned : warning ∈ r.warnings
  undeclared : ∀ a ∈ r.actions, a.file ≠ file
  silent : ∀ x, r.Holds x → x.source ≠ file

section Result

variable {s : Scanner} {r : ScanResult} {candidates : List (Text × Category)} {folders : List EmptyFolder}
  (hconfig : s.config = standardConfig) (hscan : (s.scan disk).1 = .ok r)
  (hc : Scanner.Completed standardConfig disk s.project standardDirs candidates folders)

include hconfig hscan hc

/-- A candidate that says nothing is the source of no reference. -/
theorem silent_of_referencesIn
    (h : ∀ c ∈ candidates, c.1 = file → Scan.referencesIn standardConfig disk s.project c = []) :
    ∀ x, r.Holds x → x.source ≠ file := by
  rintro x hx rfl
  obtain ⟨c, hmem, hsource, hsaid⟩ := Scanner.candidate_of_reference hscan (by rw [hconfig]; exact hc.candidates_eq) hx
  rw [hconfig] at hsaid
  exact hsaid (h c hmem hsource.symm)

theorem warnings_of_completed : r.warnings = Scan.missingFolders disk s.project standardDirs ++
    (Scan.actionPaths standardDirs disk s.project).eraseDups.filterMap (Scan.parseWarning? disk s.project) ++
    candidates.filterMap
      (Scan.searchWarning? standardConfig disk s.project (Scan.actionPaths standardDirs disk s.project)) := by
  have h := Scan.scan_warnings hscan (show s.config.actionDirs = .ok standardDirs by rw [hconfig]; rfl)
    (show Candidate.all s.config.rules disk s.project = .ok candidates by rw [hconfig]; exact hc.candidates_eq)
  rwa [hconfig] at h

variable (hp : disk.HasProject s.project place tree)

include hp

/-- A file that is asked for and has no document is left out. -/
theorem leavesOut_of_fault (hasked : Asked disk s.project tree file) {fault : Fault}
    (hfault : disk.readJson (s.project.under file) = .error fault) :
    r.LeavesOut file ("Warning: " ++ file ++ ": could not parse: " ++ fault.message) := by
  have hwarning : Scan.parseWarning? disk s.project file =
      some ("Warning: " ++ file ++ ": could not parse: " ++ fault.message) := by
    unfold Scan.parseWarning?
    rw [hfault]
  have hnull := Disk.documentAt_error hfault
  constructor
  case warned =>
    rw [warnings_of_completed hconfig hscan hc]
    by_cases hpath : file ∈ Scan.actionPaths standardDirs disk s.project
    · refine List.mem_append_left _ (List.mem_append_right _ ?_)
      exact List.mem_filterMap.2 ⟨file, List.mem_eraseDups.2 hpath, hwarning⟩
    · have hcandidate : (file, Category.structured) ∈ candidates := by
        rcases hasked with hfile | hcandidate
        · exact absurd ((Scan.mem_actionPaths_iff hp hc.discoverable ScanSettings.standardDirs_lead_down).2 hfile) hpath
        · exact (ScanSettings.standard_mem_all_iff hp hc.candidates_eq).2 hcandidate
      refine List.mem_append_right _ (List.mem_filterMap.2 ⟨_, hcandidate, ?_⟩)
      unfold Scan.searchWarning?
      simp only [if_neg hpath, hwarning, Option.some_or]
  case undeclared =>
    rintro a ha rfl
    obtain ⟨b, hb, hfile, -⟩ := Scanner.declared_of_mem hscan
      (show s.config.actionDirs = .ok standardDirs by rw [hconfig]; rfl) ha
    obtain ⟨-, hdeclares, -⟩ := Scan.file_of_mem_declared hb
    rw [hfile, hnull] at hdeclares
    cases hdeclares
  case silent =>
    refine silent_of_referencesIn hconfig hscan hc ?_
    rintro ⟨path, category⟩ hmem rfl
    obtain rfl := hasked.category ((ScanSettings.standard_mem_all_iff hp hc.candidates_eq).1 hmem).classified
    exact Scan.referencesIn_of_null hnull

/-- A candidate that nests too deep to be searched costs a warning and refers to nothing. -/
theorem silent_of_nesting (hcandidate : IsCandidate standardRules disk s.project tree file .structured) {v : Value}
    (hv : disk.readJson (s.project.under file) = .ok v) {e : Extract.DocumentFault}
    (he : Extract.document v .standard = .error e) :
    ("Warning: " ++ file ++ ": " ++ e.reason) ∈ r.warnings ∧ ∀ x, r.Holds x → x.source ≠ file := by
  have hdoc := Disk.documentAt_ok hv
  have hdepth : Scan.depthWarning? standardConfig disk s.project file = some ("Warning: " ++ file ++ ": " ++ e.reason) := by
    unfold Scan.depthWarning?
    rw [hdoc]
    cases v with
    | null => cases he
    | _ => simp only [standardConfig, he]
  have hparse : Scan.parseWarning? disk s.project file = none := by
    unfold Scan.parseWarning?
    rw [hv]
  constructor
  · rw [warnings_of_completed hconfig hscan hc]
    refine List.mem_append_right _ (List.mem_filterMap.2
      ⟨_, (ScanSettings.standard_mem_all_iff hp hc.candidates_eq).2 hcandidate, ?_⟩)
    unfold Scan.searchWarning?
    simp only [hparse, hdepth, Option.none_or, ite_self]
  · refine silent_of_referencesIn hconfig hscan hc ?_
    rintro ⟨path, category⟩ hmem rfl
    obtain rfl := Asked.category (.inr hcandidate)
      ((ScanSettings.standard_mem_all_iff hp hc.candidates_eq).1 hmem).classified
    unfold Scan.referencesIn
    simp only [hv, standardConfig, he]

end Result

/-- Under the standard settings a scan gives a result exactly if no JSON file that it asks for nests its brackets
too deep to be read, and its folders can be asked about and all that is in those of the actions. Whatever else a file
holds, the worst is that a result leaves it out. -/
theorem scan_isolates {s : Scanner} (hstate : s.state = .idle ∨ s.state = .classified ∨ s.state = .failed)
    (hconfig : ScanSettings.standard.config = .ok s.config) (hp : disk.HasProject s.project place tree)
    (hfolder : ∃ dir ∈ standardDirs, ∃ d, tree.find? (Path.partsOf dir) = some (.folder d)) :
    ((∃ r, (s.scan disk).1 = .ok r) ↔ Scannable disk s.project tree) ∧
      ∀ r, (s.scan disk).1 = .ok r →
        (∀ file fault, Asked disk s.project tree file → disk.readJson (s.project.under file) = .error fault →
          r.LeavesOut file ("Warning: " ++ file ++ ": could not parse: " ++ fault.message)) ∧
        ∀ file v e, IsCandidate standardRules disk s.project tree file .structured →
          disk.readJson (s.project.under file) = .ok v → Extract.document v .standard = .error e →
          ("Warning: " ++ file ++ ": " ++ e.reason) ∈ r.warnings ∧ ∀ x, r.Holds x → x.source ≠ file := by
  have hstandard : s.config = standardConfig :=
    Except.ok.inj (hconfig.symm.trans ScanSettings.standard_config)
  have hdone : ∀ r, (s.scan disk).1 = .ok r → ∃ candidates folders,
      Scanner.Completed standardConfig disk s.project standardDirs candidates folders := by
    intro r hscan
    obtain ⟨dirs, candidates, folders, hc, -⟩ := Scanner.scan_ok hscan
    rw [hstandard] at hc
    obtain rfl := hc.dirs_unique rfl
    exact ⟨candidates, folders, hc⟩
  refine ⟨⟨?_, fun hscannable => ?_⟩, fun r hscan => ?_⟩
  · rintro ⟨r, hscan⟩
    obtain ⟨candidates, folders, hc⟩ := hdone r hscan
    exact .of_completed hp hc
  · obtain ⟨candidates, folders, hc⟩ := hscannable.completed hp hfolder
    exact Scanner.scan_runs hstate (hstandard ▸ hc)
  · obtain ⟨candidates, folders, hc⟩ := hdone r hscan
    exact ⟨fun file fault hasked hfault => leavesOut_of_fault hstandard hscan hc hp hasked hfault,
      fun file v e hcandidate hv he => silent_of_nesting hstandard hscan hc hp hcandidate hv he⟩

/-- A scan of a sample project with a file that is no document and one that nests too deep to be searched. -/
theorem sample_scan_isolates :
    Scannable Sample.uselessDisk Sample.project Sample.uselessTree ∧
    ∃ r, (Sample.scanner.scan Sample.uselessDisk).1 = .ok r ∧
      r.actions.map (·.file) = ["app/api/a.json"] ∧
      r.warnings = ["Warning: action directory /p/app/lib does not exist",
        "Warning: app/api/b.json: could not parse: Expecting value: line 1 column 1 (char 0)",
        "Warning: app/api/c.json: nesting deeper than 64 levels"] ∧
      r.LeavesOut "app/api/b.json"
        "Warning: app/api/b.json: could not parse: Expecting value: line 1 column 1 (char 0)" := by
  have hp : Sample.uselessDisk.HasProject Sample.project ["p"] Sample.uselessTree :=
    ⟨by decide +kernel, by decide, rfl, by decide⟩
  have hrun : ∃ r, (Sample.scanner.scan Sample.uselessDisk).1 = .ok r ∧
      r.actions.map (·.file) = ["app/api/a.json"] ∧
      r.warnings = ["Warning: action directory /p/app/lib does not exist",
        "Warning: app/api/b.json: could not parse: Expecting value: line 1 column 1 (char 0)",
        "Warning: app/api/c.json: nesting deeper than 64 levels"] := Outcome.ok_of_check (by decide +kernel)
  have hread : ∃ fault, Sample.uselessDisk.readJson (Sample.project.under "app/api/b.json") = .error fault ∧
      fault.message = "Expecting value: line 1 column 1 (char 0)" := Outcome.error_of_check (by decide +kernel)
  have hfile : IsActionFile Sample.uselessTree "app/api/b.json" := by
    have hdescends : Path.Descends (Path.partsOf "app/api/b.json") := by
      unfold Path.Descends
      decide
    exact ⟨⟨isProjectFile_text (by decide) hdescends rfl, by decide⟩, "app/api", by decide, ["b.json"], by decide, rfl⟩
  obtain ⟨r, hr, hactions, hwarnings⟩ := hrun
  obtain ⟨fault, hfault, hmessage⟩ := hread
  obtain ⟨hiff, hall⟩ := scan_isolates (s := Sample.scanner) (.inl rfl) ScanSettings.standard_config hp
    ⟨"app/api", by decide, _, rfl⟩
  have hleft := (hall r hr).1 "app/api/b.json" fault (.inl hfile) hfault
  rw [hmessage] at hleft
  exact ⟨hiff.1 ⟨r, hr⟩, r, hr, hactions, hwarnings, hleft⟩

/-- One file that opens too many brackets stops the scan of a whole project. -/
theorem deep_file_stops_scan :
    ∃ f, (Sample.scanner.scan Sample.deepDisk).1 = .error f ∧ f.isFile = false ∧ f.isValue = false ∧
      f.message = "maximum recursion depth exceeded while decoding a JSON array from a unicode string" :=
  Outcome.error_of_check (by decide +kernel)

end ActionSweep
