/-
A file that is added to an action folder and is no document. A scan asks for it twice, in discovery and as a candidate,
and remembers that it did: the file costs one warning, and everything else in the result is as it was.
-/
import ActionSweep.Proofs.Scan.Growth
import ActionSweep.Proofs.Scan.Isolation

namespace ActionSweep

open Outcome (bind_ok mapM_ok)
open ActionSweep.Path (IsPart)
open ScanSettings (standardBases standardConfig standardDirs standardRules standardDirs_lead_down standardBases_lead_down
  IsCandidate)

variable {disk disk' : Disk} {project : Path} {place place' : List Text} {tree tree' : Dir} {file : Text}
  {names : List Text}

/-! ## Files that are no documents -/

/-- What the bytes of a file say as a document, if brackets may nest so deep. -/
def Disk.documentOf (room : Nat) (bytes : Bytes) : Except Fault Value := do
  let text ← (Utf8.strictUnmarked bytes).mapError .encoding
  (Json.readWithin room text.unifyLines).mapError .json

/-- A tree with one more file in an action folder, which is no document. -/
structure Dir.GainsBroken (room : Nat) (tree tree' : Dir) (names : List Text) : Prop where
  added : ∃ bytes fault, tree.addFile? bytes names = some tree' ∧ Disk.documentOf room bytes = .error fault ∧
    fault.isValue = true
  below : ∃ dir ∈ standardDirs, ∃ d more, tree.find? (Path.partsOf dir) = some (.folder d) ∧ more ≠ [] ∧
    names = Path.partsOf dir ++ more
  named : ∃ front stem, names = front ++ [stem ++ Key.extension]

/-- The file that was added, by its path relative to the project. -/
def Dir.addedFile (names : List Text) : Text := (Path.mk .here names).text

namespace Dir.GainsBroken

variable {room : Nat} (h : tree.GainsBroken room tree' names)

include h

theorem gains : tree.Gains tree' names := by
  obtain ⟨bytes, fault, hadd, -⟩ := h.added
  exact gains_of_addFile? hadd

theorem stands : ∃ bytes fault, tree'.find? names = some (.file bytes) ∧ Disk.documentOf room bytes = .error fault ∧
    fault.isValue = true := by
  obtain ⟨bytes, fault, hadd, hfault, hvalue⟩ := h.added
  exact ⟨bytes, fault, (find?_addFile? hadd names bytes).2 (.inr ⟨rfl, rfl⟩), hfault, hvalue⟩

/-- Which folders of actions there are is as before. -/
theorem folder_iff {dir : Text} (hdir : dir ∈ standardDirs) :
    (∃ d, tree'.find? (Path.partsOf dir) = some (.folder d)) ↔ ∃ d, tree.find? (Path.partsOf dir) = some (.folder d) := by
  obtain ⟨bytes, -, hadd, -⟩ := h.added
  rw [folder_addFile? hadd]
  refine or_iff_left_of_imp ?_
  -- the folder that was there before is the only one of them on the way to the file
  rintro ⟨hbegin, -⟩
  obtain ⟨other, hother, d, more, hd, -, rfl⟩ := h.below
  have hlength : ∀ dir ∈ standardDirs, (Path.partsOf dir).length = 2 := by decide
  have hsame := List.IsPrefix.eq_of_length (List.prefix_of_prefix_length_le hbegin (List.prefix_append ..)
    (Nat.le_of_eq ((hlength dir hdir).trans (hlength other hother).symm)))
    ((hlength dir hdir).trans (hlength other hother).symm)
  exact ⟨d, hsame ▸ hd⟩

variable (hwf : tree'.WellFormed)

include hwf

theorem descends : Path.Descends names := by
  obtain ⟨bytes, -, hstands, -⟩ := h.stands
  exact Path.descends_of_names (hwf.find? hstands).1

theorem partsOf_addedFile : Path.partsOf (addedFile names) = names := partsOf_text (h.descends hwf)

theorem isActionFile : IsActionFile tree' (addedFile names) := by
  obtain ⟨bytes, -, hstands, -⟩ := h.stands
  obtain ⟨dir, hdir, -, more, -, hmore, hparts⟩ := h.below
  obtain ⟨front, stem, hname⟩ := h.named
  have hne : names ≠ [] := by simp [hname]
  refine ⟨⟨isProjectFile_text hne (h.descends hwf) hstands, ?_⟩, dir, hdir, more, hmore, ?_⟩
  · rw [h.partsOf_addedFile hwf, hname]
    simp
  · rw [h.partsOf_addedFile hwf, hparts]

theorem eq_addedFile_iff {other : Text} (hother : IsProjectFile tree' other) :
    Path.partsOf other = names ↔ other = addedFile names := by
  constructor
  · intro hparts
    exact hother.ext (h.isActionFile hwf).1.1 (hparts.trans (h.partsOf_addedFile hwf).symm)
  · rintro rfl
    exact h.partsOf_addedFile hwf

end Dir.GainsBroken

/-- The files of the tree before are those of the tree now, but for the added one. -/
theorem Dir.Gains.isProjectFile_iff (h : tree.Gains tree' names) :
    IsProjectFile tree file ↔ IsProjectFile tree' file ∧ Path.partsOf file ≠ names := by
  constructor
  · intro hfile
    exact ⟨h.isProjectFile hfile, (h.stands_iff.1 hfile.stands).2⟩
  · rintro ⟨hfile, hne⟩
    exact ⟨hfile.text_eq, hfile.nonempty, hfile.descends, h.stands_iff.2 ⟨hfile.stands, hne⟩⟩

theorem Scan.Discoverable.filesOf_eq {config : ScanConfig} {dirs : List Text} (hd : Discoverable config disk project dirs)
    {dir : Text} (hdir : dir ∈ dirs) (h : disk.leadsToFolder (project.under dir).text = true) :
    ∃ files, actionFiles disk project (project.under dir) = .ok files ∧ filesOf disk project (project.under dir) = files := by
  obtain ⟨files, hfiles⟩ := hd.lists dir hdir h
  refine ⟨files, hfiles, ?_⟩
  unfold filesOf
  rw [hfiles]

section Scanned

variable (h : tree.GainsBroken disk'.around.nesting tree' names) (hp : disk.HasProject project place tree)
  (hp' : disk'.HasProject project place' tree')

include h hp'

/-- Whoever asks for the document of the added file is told why there is none. -/
theorem Dir.GainsBroken.fault : ∃ fault, disk'.readJson (project.under (Dir.addedFile names)) = .error fault ∧
    (fault.isFile || fault.isValue) = true := by
  obtain ⟨bytes, fault, hstands, hfault, hvalue⟩ := h.stands
  have hwf := hp'.tree_wellFormed
  have hfile := (h.isActionFile hwf).1.1
  have hread := hfile.read_eq hp' (h.partsOf_addedFile hwf ▸ hstands)
  by_cases hlong : Disk.pathLimit < (Utf8.encode (project.under (Dir.addedFile names)).text).length
  · rw [if_pos hlong] at hread
    exact ⟨_, by unfold Disk.readJson; rw [hread]; rfl, rfl⟩
  · rw [if_neg hlong] at hread
    refine ⟨fault, ?_, by rw [hvalue, Bool.or_true]⟩
    unfold Disk.readJson
    rw [hread]
    exact hfault

theorem Dir.GainsBroken.document_added : disk'.documentAt project (Dir.addedFile names) = .null := by
  obtain ⟨fault, hfault, -⟩ := h.fault hp'
  exact Disk.documentAt_error hfault

include hp

/-! ## Lists of files -/

variable (hd : Scan.Discoverable standardConfig disk project standardDirs)
  (hd' : Scan.Discoverable standardConfig disk' project standardDirs)

include hd hd'

theorem leadsToFolder_kept {dir : Text} (hdir : dir ∈ standardDirs) :
    disk'.leadsToFolder (project.under dir).text = disk.leadsToFolder (project.under dir).text := by
  obtain ⟨hhere, hdesc⟩ := standardDirs_lead_down dir hdir
  rw [Bool.eq_iff_iff, hp'.leadsToFolder_iff hhere hdesc (hd'.asks dir hdir),
    hp.leadsToFolder_iff hhere hdesc (hd.asks dir hdir)]
  exact h.folder_iff hdir

/-- The same action folders are missing. -/
theorem missingFolders_kept :
    Scan.missingFolders disk' project standardDirs = Scan.missingFolders disk project standardDirs := by
  unfold Scan.missingFolders
  congr 1
  refine List.filter_congr fun root hroot => ?_
  obtain ⟨dir, hdir, rfl⟩ := List.mem_map.1 hroot
  rw [leadsToFolder_kept h hp hp' hd hd' hdir]

/-- Below an action folder the files are listed that were, in the same order, and maybe the added one. -/
theorem filesOf_kept {dir : Text} (hdir : dir ∈ standardDirs)
    (hleads : disk.leadsToFolder (project.under dir).text = true) :
    Scan.filesOf disk project (project.under dir) =
      (Scan.filesOf disk' project (project.under dir)).filter fun file => decide (Path.partsOf file ≠ names) := by
  obtain ⟨hhere, hdesc⟩ := standardDirs_lead_down dir hdir
  have hleads' := (leadsToFolder_kept h hp hp' hd hd' hdir).trans hleads
  obtain ⟨files, hfiles, hfilesOf⟩ := hd.filesOf_eq hdir hleads
  obtain ⟨files', hfiles', hfilesOf'⟩ := hd'.filesOf_eq hdir hleads'
  rw [hfilesOf, hfilesOf']
  refine Text.eq_of_increasing (Scan.actionFiles_increasing hp.wellFormed (hp.normal.under dir) hfiles)
    ((Scan.actionFiles_increasing hp'.wellFormed (hp'.normal.under dir) hfiles').filter _) fun file => ?_
  rw [List.mem_filter, decide_eq_true_eq, Scan.mem_actionFiles_iff hp hhere hdesc hfiles,
    Scan.mem_actionFiles_iff hp' hhere hdesc hfiles']
  unfold IsJsonFile
  rw [h.gains.isProjectFile_iff]
  tauto

theorem actionPaths_kept : Scan.actionPaths standardDirs disk project =
    (Scan.actionPaths standardDirs disk' project).filter fun file => decide (Path.partsOf file ≠ names) := by
  unfold Scan.actionPaths
  have hroots : ((standardDirs.map project.under).filter fun root => disk'.leadsToFolder root.text) =
      (standardDirs.map project.under).filter fun root => disk.leadsToFolder root.text := by
    refine List.filter_congr fun root hroot => ?_
    obtain ⟨dir, hdir, rfl⟩ := List.mem_map.1 hroot
    exact leadsToFolder_kept h hp hp' hd hd' hdir
  rw [hroots, List.filter_flatMap]
  refine List.flatMap_congr fun root hroot => ?_
  obtain ⟨hroot, hleads⟩ := List.mem_filter.1 hroot
  obtain ⟨dir, hdir, rfl⟩ := List.mem_map.1 hroot
  exact filesOf_kept h hp hp' hd hd' hdir hleads

omit hd hd'

/-! ## What the files say -/

variable (hroom : disk'.around.nesting = disk.around.nesting)

include hroom

theorem readJson_kept (hfile : IsProjectFile tree file) :
    disk'.readJson (project.under file) = disk.readJson (project.under file) := by
  unfold Disk.readJson
  rw [(read_grown hp hp' h.gains hfile).2, hroom]

omit hp hroom in
/-- What the added file brings has no longer path than the file. -/
theorem shortBelow_kept (hshort : (Utf8.encode (project.under (Dir.addedFile names)).text).length ≤ Disk.pathLimit) {dir : Text}
    (hbefore : Scan.ShortBelow project tree dir) : Scan.ShortBelow project tree' dir := by
  rw [(h.isActionFile hp'.tree_wellFormed).1.1.under, h.partsOf_addedFile hp'.tree_wellFormed] at hshort
  intro more e hmore he
  cases e with
  | link t => exact absurd rfl ((hp'.linkFree.find? he).1 t)
  | file b =>
    by_cases hnames : Path.partsOf dir ++ more = names
    · rwa [hnames]
    · exact hbefore more _ hmore (h.gains.only _ b he hnames)
  | folder d =>
    obtain ⟨bytes, -, hadd, -⟩ := h.added
    rcases (Dir.folder_addFile? hadd _).1 ⟨d, he⟩ with ⟨d', hd'⟩ | ⟨⟨rest, hrest⟩, -⟩
    · exact hbefore more _ hmore hd'
    · rw [← hrest] at hshort
      exact (project.text_length_mono (by simp [hmore]) rest).trans hshort

/-- The added file is no reason for a scan to fail, if its path is not too long. -/
theorem scannable_kept (hshort : (Utf8.encode (project.under (Dir.addedFile names)).text).length ≤ Disk.pathLimit)
    (hscannable : Scannable disk project tree) : Scannable disk' project tree' where
  shallow file hasked := by
    by_cases hparts : Path.partsOf file = names
    · obtain rfl := (h.eq_addedFile_iff hp'.tree_wellFormed hasked.isProjectFile).1 hparts
      refine (hasked.isProjectFile.readable_iff hp').1 fun f hf => ?_
      obtain ⟨fault, hfault, hvalue⟩ := h.fault hp'
      obtain rfl := Except.error.inj (hf.symm.trans hfault)
      exact hvalue
    · have hfile : IsProjectFile tree file := h.gains.isProjectFile_iff.2 ⟨hasked.isProjectFile, hparts⟩
      have hbefore : Asked disk project tree file := by
        rcases hasked with haction | hcandidate
        · exact .inl ⟨⟨hfile, haction.1.2⟩, haction.2⟩
        · exact .inr ⟨hfile, hcandidate.classified, (read_grown hp hp' h.gains hfile).1 ▸ hcandidate.text, hcandidate.entered⟩
      unfold Disk.TooDeep
      rw [readJson_kept h hp hp' hroom hfile]
      exact hscannable.shallow file hbefore
  asks := hscannable.asks
  short dir hdir := shortBelow_kept h hp' hshort (hscannable.short dir hdir)

/-! ## The results -/

variable {cs cs' : List (Text × Category)} {folders folders' : List EmptyFolder}
  (hc : Scanner.Completed standardConfig disk project standardDirs cs folders)
  (hc' : Scanner.Completed standardConfig disk' project standardDirs cs' folders')

include hc hc'

/-- The action files that were there are declared as before, and the added one declares nothing. -/
theorem declared_kept : Scan.declared standardDirs disk' project = Scan.declared standardDirs disk project := by
  unfold Scan.declared
  rw [actionPaths_kept h hp hp' hc.discoverable hc'.discoverable, List.foldl_filter]
  refine List.foldl_ext _ _ _ fun i file hfile => ?_
  have haction : IsActionFile tree' file := Scan.isJsonFile_of_mem_actionPaths hp' standardDirs_lead_down hfile
  unfold Scan.declareFile
  by_cases hparts : Path.partsOf file = names
  · obtain rfl := (h.eq_addedFile_iff hp'.tree_wellFormed haction.1.1).1 hparts
    rw [h.document_added hp']
    simp [hparts, Value.declaresAction]
  · rw [documentAt_grown hp hp' h.gains hroom (h.gains.isProjectFile_iff.2 ⟨haction.1.1, hparts⟩)]
    simp [hparts]

omit hroom in
theorem candidates_without : cs = cs'.filter fun c => decide (Path.partsOf c.1 ≠ names) :=
  candidates_kept hp hp' h.gains (show standardRules.bases = .ok standardBases from rfl) standardBases_lead_down
    hc.candidates_eq hc'.candidates_eq

omit hp hc hroom in
/-- What a candidate is now: the added file, searched as a document, or one that was there. -/
theorem candidate_cases {c : Text × Category} (hmem : c ∈ cs') :
    c = (Dir.addedFile names, .structured) ∨ Path.partsOf c.1 ≠ names ∧ IsProjectFile tree c.1 := by
  obtain ⟨path, category⟩ := c
  have hcandidate := (ScanSettings.standard_mem_all_iff hp' hc'.candidates_eq).1 hmem
  have hwf := hp'.tree_wellFormed
  by_cases hparts : Path.partsOf path = names
  · obtain rfl := (h.eq_addedFile_iff hwf hcandidate.isFile).1 hparts
    have hasked : Asked disk' project tree' (Dir.addedFile names) := .inl (h.isActionFile hwf)
    rw [hasked.category hcandidate.classified]
    exact .inl rfl
  · exact .inr ⟨hparts, h.gains.isProjectFile_iff.2 ⟨hcandidate.isFile, hparts⟩⟩

theorem findings_kept : cs'.flatMap (Scan.findingsIn standardConfig disk' project) =
    cs.flatMap (Scan.findingsIn standardConfig disk project) := by
  rw [candidates_without h hp hp' hc hc']
  refine (flatMap_filter (fun c hmem hkeep => ?_) fun c hmem hkeep => ?_).symm
  · rcases candidate_cases h hp' hc' hmem with rfl | ⟨-, hfile⟩
    · rw [decide_eq_true_eq] at hkeep
      exact absurd (h.partsOf_addedFile hp'.tree_wellFormed) hkeep
    · exact (findingsIn_grown hp hp' h.gains hroom standardConfig hfile).symm
  · rcases candidate_cases h hp' hc' hmem with rfl | ⟨hparts, -⟩
    · unfold Scan.findingsIn
      rw [Scan.referencesIn_of_null (h.document_added hp'), List.map_nil]
    · rw [decide_eq_false_iff_not, not_not] at hkeep
      exact absurd hkeep hparts

/-- The candidates cost the warnings that they did, and the added file costs none in addition to that of discovery. -/
theorem searchWarnings_kept :
    cs'.filterMap (Scan.searchWarning? standardConfig disk' project (Scan.actionPaths standardDirs disk' project)) =
      cs.filterMap (Scan.searchWarning? standardConfig disk project (Scan.actionPaths standardDirs disk project)) := by
  have hwf := hp'.tree_wellFormed
  have hadded : Dir.addedFile names ∈ Scan.actionPaths standardDirs disk' project :=
    (Scan.mem_actionPaths_iff hp' hc'.discoverable standardDirs_lead_down).2 (h.isActionFile hwf)
  rw [candidates_without h hp hp' hc hc', List.filterMap_filter]
  refine List.filterMap_congr fun c hmem => ?_
  rcases candidate_cases h hp' hc' hmem with rfl | ⟨hparts, hfile⟩
  · have hdepth : Scan.depthWarning? standardConfig disk' project (Dir.addedFile names) = none := by
      unfold Scan.depthWarning?
      rw [h.document_added hp']
    unfold Scan.searchWarning?
    simp [hadded, hdepth, h.partsOf_addedFile hwf]
  · have hasked : c.1 ∈ Scan.actionPaths standardDirs disk project ↔ c.1 ∈ Scan.actionPaths standardDirs disk' project := by
      rw [actionPaths_kept h hp hp' hc.discoverable hc'.discoverable, List.mem_filter, decide_eq_true_eq]
      exact and_iff_left hparts
    have hread := (read_grown hp hp' h.gains hfile).2
    unfold Scan.searchWarning? Scan.parseWarning? Scan.depthWarning? Scan.textWarning? Disk.documentAt Disk.readJson
      Disk.readText
    simp only [hasked, hread, hroom, hparts, ne_eq, not_false_eq_true, decide_true, if_true]

/-- The action files cost the warnings that they did, and that of the added file. -/
theorem parseWarnings_once {warning : Text} (hwarning : Scan.parseWarning? disk' project (Dir.addedFile names) = some warning) :
    ∃ before after,
      (Scan.actionPaths standardDirs disk project).eraseDups.filterMap (Scan.parseWarning? disk project) = before ++ after ∧
      (Scan.actionPaths standardDirs disk' project).eraseDups.filterMap (Scan.parseWarning? disk' project) =
        before ++ warning :: after := by
  have hwf := hp'.tree_wellFormed
  have haction : ∀ file ∈ (Scan.actionPaths standardDirs disk' project).eraseDups, IsActionFile tree' file :=
    fun file hfile => Scan.isJsonFile_of_mem_actionPaths hp' standardDirs_lead_down (List.mem_eraseDups.1 hfile)
  have hadded : Dir.addedFile names ∈ (Scan.actionPaths standardDirs disk' project).eraseDups :=
    List.mem_eraseDups.2 ((Scan.mem_actionPaths_iff hp' hc'.discoverable standardDirs_lead_down).2 (h.isActionFile hwf))
  rw [actionPaths_kept h hp hp' hc.discoverable hc'.discoverable, ← filter_eraseDups]
  refine filterMap_once (nodup_eraseDups _) hadded hwarning (fun file hfile => ?_) fun file hfile hne => ?_
  · rw [decide_eq_false_iff_not, not_not]
    exact h.eq_addedFile_iff hwf (haction file hfile).1.1
  · have hproject := (haction file hfile).1.1
    have hparts := mt (h.eq_addedFile_iff hwf hproject).1 hne
    unfold Scan.parseWarning?
    rw [readJson_kept h hp hp' hroom (h.gains.isProjectFile_iff.2 ⟨hproject, hparts⟩)]

end Scanned

/-- A file that is added to a project below an action folder, and is no document, changes nothing in the result of a
scan but for one warning more, which names the file, if its path is not too long to be asked about. -/
theorem scan_warns_once {s s' : Scanner} {r : ScanResult} (hstate : s'.state = .idle ∨ s'.state = .classified ∨ s'.state = .failed)
    (hconfig : ScanSettings.standard.config = .ok s.config) (hsame : s'.project = s.project ∧ s'.config = s.config)
    (hp : disk.HasProject s.project place tree) (hp' : disk'.HasProject s.project place' tree')
    (hroom : disk'.around.nesting = disk.around.nesting) (h : tree.GainsBroken disk'.around.nesting tree' names)
    (hshort : (Utf8.encode (s.project.under (Dir.addedFile names)).text).length ≤ Disk.pathLimit)
    (hscan : (s.scan disk).1 = .ok r) :
    ∃ r', (s'.scan disk').1 = .ok r' ∧ r'.actions = r.actions ∧ r'.unresolved = r.unresolved ∧
      ∃ before after fault, disk'.readJson (s.project.under (Dir.addedFile names)) = .error fault ∧
        r.warnings = before ++ after ∧
        r'.warnings =
          before ++ ("Warning: " ++ Dir.addedFile names ++ ": could not parse: " ++ fault.message) :: after := by
  obtain ⟨hproject, hsettings⟩ := hsame
  have hstandard : s.config = standardConfig := Except.ok.inj (hconfig.symm.trans ScanSettings.standard_config)
  obtain ⟨dirs, cs, folders, hc, hactions, hunresolved, -, -⟩ := Scanner.scan_ok hscan
  rw [hstandard] at hc hactions hunresolved
  obtain rfl : standardDirs = dirs := hc.dirs_unique rfl
  have hfolder : ∃ dir ∈ standardDirs, ∃ d, tree'.find? (Path.partsOf dir) = some (.folder d) := by
    obtain ⟨dir, hdir, d, -, hd, -, -⟩ := h.below
    exact ⟨dir, hdir, (h.folder_iff hdir).2 ⟨d, hd⟩⟩
  obtain ⟨cs', folders', hc'⟩ := (scannable_kept h hp hp' hroom hshort (Scannable.of_completed hp hc)).completed hp' hfolder
  obtain ⟨r', hr'⟩ := Scanner.scan_runs (s := s') hstate (by rw [hproject, hsettings, hstandard]; exact hc')
  obtain ⟨dirs, cs'', folders'', hc'', hactions', hunresolved', -, -⟩ := Scanner.scan_ok hr'
  rw [hproject, hsettings, hstandard] at hc'' hactions' hunresolved'
  obtain rfl : standardDirs = dirs := hc''.dirs_unique rfl
  obtain rfl : cs'' = cs' := Except.ok.inj (hc''.candidates_eq.symm.trans hc'.candidates_eq)
  have hindex : Scanner.finalIndex standardConfig disk' s.project standardDirs cs'' =
      Scanner.finalIndex standardConfig disk s.project standardDirs cs := by
    unfold Scanner.finalIndex
    rw [declared_kept h hp hp' hroom hc hc', findings_kept h hp hp' hroom hc hc']
  refine ⟨r', hr', by rw [hactions', hactions, hindex], by rw [hunresolved', hunresolved, hindex], ?_⟩
  obtain ⟨fault, hfault, -⟩ := h.fault hp'
  have hwarning : Scan.parseWarning? disk' s.project (Dir.addedFile names) =
      some ("Warning: " ++ Dir.addedFile names ++ ": could not parse: " ++ fault.message) := by
    unfold Scan.parseWarning?
    rw [hfault]
  obtain ⟨before, after, hbefore, hafter⟩ := parseWarnings_once h hp hp' hroom hc hc' hwarning
  have hwarnings := warnings_of_completed hstandard hscan hc
  have hwarnings' := warnings_of_completed (s := s') (hsettings.trans hstandard) hr' (hproject ▸ hc')
  rw [hproject, hafter, searchWarnings_kept h hp hp' hroom hc hc',
    missingFolders_kept h hp hp' hc.discoverable hc'.discoverable] at hwarnings'
  rw [hbefore] at hwarnings
  refine ⟨Scan.missingFolders disk s.project standardDirs ++ before, after ++ cs.filterMap (Scan.searchWarning?
    standardConfig disk s.project (Scan.actionPaths standardDirs disk s.project)), fault, hfault, ?_, ?_⟩
  · rw [hwarnings]
    simp only [List.append_assoc]
  · rw [hwarnings']
    simp only [List.append_assoc, List.cons_append]

theorem sample_scan_warns_once :
    Sample.tree.GainsBroken Sample.brokenDisk.around.nesting Sample.brokenTree ["app", "api", "c.json"] ∧
    (Utf8.encode (Sample.project.under (Dir.addedFile ["app", "api", "c.json"])).text).length ≤ Disk.pathLimit ∧
    ∃ r r', (Sample.scanner.scan Sample.disk).1 = .ok r ∧ (Sample.scanner.scan Sample.brokenDisk).1 = .ok r' ∧
      r'.actions = r.actions ∧ r'.unresolved = r.unresolved ∧ r.actions.length = 2 ∧ r.warnings = [] ∧
      r'.warnings = ["Warning: app/api/c.json: could not parse: Expecting value: line 1 column 10 (char 9)"] := by
  have hp : Sample.disk.HasProject Sample.project ["p"] Sample.tree :=
    ⟨by decide +kernel, by decide, rfl, by decide⟩
  have hp' : Sample.brokenDisk.HasProject Sample.project ["p"] Sample.brokenTree :=
    ⟨by decide +kernel, by decide, rfl, by decide⟩
  have hread : ∃ fault, Disk.documentOf Sample.brokenDisk.around.nesting (Utf8.encode "\x7b\"exec\": ") = .error fault ∧ fault.isValue = true :=
    Outcome.error_of_check (by decide +kernel)
  have h : Sample.tree.GainsBroken Sample.brokenDisk.around.nesting Sample.brokenTree ["app", "api", "c.json"] := by
    obtain ⟨fault, hfault, hvalue⟩ := hread
    exact ⟨⟨_, fault, by decide +kernel, hfault, hvalue⟩, ⟨"app/api", by decide, _, ["c.json"], rfl, by decide, rfl⟩,
      ⟨["app", "api"], ['c'], rfl⟩⟩
  have hshort : (Utf8.encode (Sample.project.under (Dir.addedFile ["app", "api", "c.json"])).text).length ≤
      Disk.pathLimit := by decide +kernel
  have hrun : ∃ r, (Sample.scanner.scan Sample.disk).1 = .ok r ∧ r.actions.length = 2 ∧ r.warnings = [] :=
    Outcome.ok_of_check (by decide +kernel)
  have hfault : ∃ fault, Sample.brokenDisk.readJson (Sample.project.under (Dir.addedFile ["app", "api", "c.json"])) =
      .error fault ∧ fault.message = "Expecting value: line 1 column 10 (char 9)" :=
    Outcome.error_of_check (by decide +kernel)
  obtain ⟨r, hr, hactions, hwarnings⟩ := hrun
  obtain ⟨fault, hfault, hmessage⟩ := hfault
  obtain ⟨r', hr', hactions', hunresolved', before, after, fault', hfault', hbefore, hafter⟩ :=
    scan_warns_once (.inl rfl) ScanSettings.standard_config ⟨rfl, rfl⟩ hp hp' (by decide) h hshort hr
  obtain rfl := Except.error.inj (hfault'.symm.trans hfault)
  rw [hwarnings, eq_comm, List.append_eq_nil_iff] at hbefore
  obtain ⟨rfl, rfl⟩ := hbefore
  rw [hmessage] at hafter
  exact ⟨h, hshort, r, r', hr, hr', hactions', hunresolved', hactions, hwarnings, hafter⟩

namespace Sample

/-- Folders with names of the greatest length, each in the one before, and what is in the last of them. -/
def narrowFolders (inside : Dir) : Nat → Dir
  | 0 => inside
  | n + 1 => .folder (List.replicate 63 '😀') (narrowFolders inside n) .empty

def narrowTree (inside : Dir) : Dir := apiTree (narrowFolders inside 16)

def narrowDisk (inside : Dir) : Disk := ⟨.folder "p" (narrowTree inside) .empty, [], "/"⟩

/-- A file whose name fits, though its path is too long there. -/
def tooFar : Text := List.replicate 62 '😀' ++ ".json"

/-- The parts that lead to it. -/
def tooFarParts : List Text := "app" :: "api" :: (List.replicate 16 (List.replicate 63 '😀') ++ [tooFar])

end Sample

/-- A file that is no document stops the scan if its path is too long to be asked about. -/
theorem long_path_stops_scan :
    (Sample.narrowDisk .empty).HasProject Sample.project ["p"] (Sample.narrowTree .empty) ∧
    (Sample.narrowDisk (Sample.file Sample.tooFar "x" .empty)).HasProject Sample.project ["p"]
      (Sample.narrowTree (Sample.file Sample.tooFar "x" .empty)) ∧
    (Sample.narrowTree .empty).GainsBroken Surroundings.standardNesting
      (Sample.narrowTree (Sample.file Sample.tooFar "x" .empty)) Sample.tooFarParts ∧
    (∃ r, (Sample.scanner.scan (Sample.narrowDisk .empty)).1 = .ok r ∧ r.warnings.length = 1) ∧
    ∃ f, (Sample.scanner.scan (Sample.narrowDisk (Sample.file Sample.tooFar "x" .empty))).1 = .error f ∧ f.isFile = true := by
  have hread : ∃ fault, Disk.documentOf Surroundings.standardNesting (Utf8.encode "x") = .error fault ∧ fault.isValue = true :=
    Outcome.error_of_check (by decide +kernel)
  obtain ⟨fault, hfault, hvalue⟩ := hread
  have hmore : List.replicate 16 (List.replicate 63 '😀') ++ [Sample.tooFar] ≠ [] :=
    List.append_ne_nil_of_right_ne_nil _ (List.cons_ne_nil _ _)
  refine ⟨⟨by decide +kernel, by decide, by decide +kernel, by decide +kernel⟩,
    ⟨by decide +kernel, by decide, by decide +kernel, by decide +kernel⟩,
    ⟨⟨_, fault, by decide +kernel, hfault, hvalue⟩, ⟨"app/api", by decide, _, _, rfl, hmore, rfl⟩,
      ⟨"app" :: "api" :: List.replicate 16 (List.replicate 63 '😀'), List.replicate 62 '😀', rfl⟩⟩,
    Outcome.ok_of_check (by decide +kernel), Outcome.error_of_check (by decide +kernel)⟩

end ActionSweep
