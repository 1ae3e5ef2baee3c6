/-
A scan of a project to which a file was added. Under the standard settings that file may declare an action
or be a candidate, and may bring folders in which walks start or actions lie. But different action files
have different keys, and the candidates that were there come in the order in which they came before. So
every action is declared from the file that declared it, and has the references that it had, and maybe
more: what is in use does not become safe to delete.
-/
import ActionSweep.Proofs.Files.Growth
import ActionSweep.Proofs.Routes.Spelling
import ActionSweep.Proofs.Sample
import Mathlib.Data.List.Flatten

namespace ActionSweep

open Outcome (bind_ok mapM_ok)
open ActionSweep.Path (IsPart)

variable {disk disk' : Disk} {project : Path} {place place' : List Text} {tree tree' : Dir} {file : Text}
  {names : List Text} {bytes : Bytes}

/-! ## Keys of action files -/

theorem IsProjectFile.text_ofText (h : IsProjectFile tree file) : (Path.ofText file).text = file := by
  have hnormal := h.descends.normal .here
  conv => lhs; rw [h.text_eq, Path.ofText_text hnormal]
  exact h.text_eq.symm

/-- A JSON file below some folder, spelled out. -/
theorem IsJsonFile.spelled (h : IsJsonFile tree file) {folders more : List Text} (hfolders : folders ≠ [])
    (hne : more ≠ []) (hparts : Path.partsOf file = folders ++ more) :
    ∃ stem, file = Text.join "/" folders ++ ("/" : Text) ++ (stem ++ Key.extension) := by
  obtain ⟨hfile, hext⟩ := h
  obtain ⟨front, name, rfl⟩ := List.eq_nil_or_concat more |>.resolve_left hne
  rw [List.concat_eq_append] at hparts
  have htext : file = Text.join "/" (folders ++ (front ++ [name])) := by
    rw [← hparts, ← Path.text_here hfile.nonempty]
    exact hfile.text_eq
  rw [hparts, ← List.append_assoc, List.getLast?_concat, Option.getD_some, List.isSuffixOf_iff_suffix] at hext
  obtain ⟨stem, rfl⟩ := hext
  obtain ⟨u, hu⟩ := Text.join_concat "/" front (stem ++ Key.extension)
  refine ⟨u ++ stem, ?_⟩
  rw [htext, Text.join_append (by simp) hfolders, hu, List.append_assoc u]

/-- An action file has its home below one of the two folders. -/
theorem IsActionFile.home (h : IsActionFile tree file) : ∃ name, Key.Home name file (Key.ofDeclaration file) := by
  obtain ⟨hjson, dir, hdir, more, hne, hparts⟩ := h
  have hplain := hjson.1.text_ofText
  simp only [List.mem_cons, List.not_mem_nil, or_false] at hdir
  rcases hdir with rfl | rfl
  · obtain ⟨name, rfl⟩ := hjson.spelled (show (["app", "api"] : List Text) ≠ [] by decide) hne hparts
    exact ⟨name, (Key.Home.api.ofDeclaration_eq hplain).symm ▸ .api⟩
  · obtain ⟨name, rfl⟩ := hjson.spelled (show (["app", "lib"] : List Text) ≠ [] by decide) hne hparts
    exact ⟨name, (Key.Home.lib.ofDeclaration_eq hplain).symm ▸ .lib⟩

/-- Different action files have different keys. -/
theorem IsActionFile.key_injective {other : Text} (h : IsActionFile tree file) (h' : IsActionFile tree other)
    (he : Key.ofDeclaration file = Key.ofDeclaration other) : file = other := by
  obtain ⟨name, hhome⟩ := h.home
  obtain ⟨name', hhome'⟩ := h'.home
  exact (hhome.file_eq_iff hhome').2 he

/-! ## Files that stay -/

/-- The files of a project are those of another one and one more, which is not there. -/
structure Dir.Gains (tree tree' : Dir) (names : List Text) : Prop where
  kept : ∀ path b, tree.find? path = some (.file b) → tree'.find? path = some (.file b)
  only : ∀ path b, tree'.find? path = some (.file b) → path ≠ names → tree.find? path = some (.file b)
  absent : ∀ b, tree.find? names ≠ some (.file b)

theorem Dir.gains_of_addFile? (h : tree.addFile? bytes names = some tree') : tree.Gains tree' names where
  kept path b hb := (Dir.find?_addFile? h path b).2 (.inl hb)
  only path b hb hne := ((Dir.find?_addFile? h path b).1 hb).resolve_right fun hn => hne hn.1
  absent := Dir.not_file_of_addFile? h

namespace Dir.Gains

theorem isProjectFile (h : tree.Gains tree' names) (hfile : IsProjectFile tree file) : IsProjectFile tree' file := by
  obtain ⟨b, hb⟩ := hfile.stands
  exact ⟨hfile.text_eq, hfile.nonempty, hfile.descends, b, h.kept _ b hb⟩

theorem isActionFile (h : tree.Gains tree' names) (hfile : IsActionFile tree file) : IsActionFile tree' file :=
  ⟨⟨h.isProjectFile hfile.1.1, hfile.1.2⟩, hfile.2⟩

theorem stands_iff (h : tree.Gains tree' names) {path : List Text} :
    (∃ b, tree.find? path = some (.file b)) ↔ (∃ b, tree'.find? path = some (.file b)) ∧ path ≠ names := by
  constructor
  · rintro ⟨b, hb⟩
    refine ⟨⟨b, h.kept path b hb⟩, ?_⟩
    rintro rfl
    exact h.absent b hb
  · rintro ⟨⟨b, hb⟩, hne⟩
    exact ⟨b, h.only path b hb hne⟩

end Dir.Gains

section Same

variable (hp : disk.HasProject project place tree) (hp' : disk'.HasProject project place' tree')
  (hgains : tree.Gains tree' names)

include hp hp' hgains

/-- A file that was there is asked about with the same answer, and read with the same bytes. -/
theorem read_grown (hfile : IsProjectFile tree file) :
    FileKind.isTextFile disk' (project.under file).text = FileKind.isTextFile disk (project.under file).text ∧
      disk'.read (project.under file).text = disk.read (project.under file).text := by
  obtain ⟨b, hb⟩ := hfile.stands
  have hfile' := hgains.isProjectFile hfile
  have hb' := hgains.kept _ b hb
  refine ⟨?_, by rw [hfile.read_eq hp hb, hfile'.read_eq hp' hb']⟩
  unfold FileKind.isTextFile
  rw [hfile.resolve_eq hp (by decide) hb, hfile'.resolve_eq hp' (by decide) hb']
  by_cases hlong : Disk.pathLimit < (Utf8.encode (project.under file).text).length
  · rw [if_pos hlong, if_pos hlong]
  · rw [if_neg hlong, if_neg hlong]

theorem documentAt_grown (hroom : disk'.around.nesting = disk.around.nesting) (hfile : IsProjectFile tree file) :
    disk'.documentAt project file = disk.documentAt project file := by
  unfold Disk.documentAt Disk.readJson
  rw [(read_grown hp hp' hgains hfile).2, hroom]

theorem findingsIn_grown (hroom : disk'.around.nesting = disk.around.nesting) (config : ScanConfig) {c : Text × Category}
    (hfile : IsProjectFile tree c.1) :
    Scan.findingsIn config disk' project c = Scan.findingsIn config disk project c := by
  have hread := (read_grown hp hp' hgains hfile).2
  unfold Scan.findingsIn Scan.referencesIn Disk.readJson Disk.readText
  rw [hread, hroom]

theorem candidate?_grown (rules : CandidateRules) (hfile : IsProjectFile tree file) :
    Candidate.candidate? rules disk' project file = Candidate.candidate? rules disk project file := by
  unfold Candidate.candidate?
  rw [(read_grown hp hp' hgains hfile).1]

/-! ## Declared actions -/

/-- Every action is declared from the same file. -/
theorem mem_declared_grown (hroom : disk'.around.nesting = disk.around.nesting) {config : ScanConfig} {dirs : List Text}
    (hdirs : dirs = ["app/api", "app/lib"])
    (hd : Scan.Discoverable config disk project dirs) (hd' : Scan.Discoverable config disk' project dirs)
    {a : Action} (ha : a ∈ (Scan.declared dirs disk project).actions) :
    a ∈ (Scan.declared dirs disk' project).actions := by
  have hdown : ∀ dir ∈ dirs, Path.anchorOf dir = .here ∧ Path.Descends (Path.partsOf dir) :=
    hdirs ▸ ScanSettings.standardDirs_lead_down
  obtain ⟨hpath, hdeclares, hkey⟩ := Scan.file_of_mem_declared ha
  obtain ⟨-, hcontent, hrefs⟩ := Scan.mem_declared.1 ha
  have hfile : IsActionFile tree a.file := by
    have h := (Scan.mem_actionPaths_iff hp hd hdown).1 hpath
    rwa [hdirs] at h
  have hfile' := hgains.isActionFile hfile
  have hdoc := documentAt_grown hp hp' hgains hroom hfile.1.1
  have hmem : a.file ∈ Scan.declaring disk' project (Scan.actionPaths dirs disk' project) a.key := by
    refine List.mem_filter.2 ⟨(Scan.mem_actionPaths_iff hp' hd' hdown).2 (by rw [hdirs]; exact hfile'), ?_⟩
    rw [hdoc, hdeclares, hkey, decide_eq_true rfl]
    rfl
  -- whatever declares the key now is the file that declared it before
  have hlast : (Scan.declaring disk' project (Scan.actionPaths dirs disk' project) a.key).getLast? = some a.file := by
    obtain ⟨last, hlast⟩ := List.getLast?_isSome.2 (List.ne_nil_of_mem hmem) |> Option.isSome_iff_exists.1
    obtain ⟨hpath', hlast'⟩ := List.mem_filter.1 (List.mem_of_getLast? hlast)
    rw [Bool.and_eq_true, decide_eq_true_eq] at hlast'
    have hother : IsActionFile tree' last := by
      have h := (Scan.mem_actionPaths_iff hp' hd' hdown).1 hpath'
      rwa [hdirs] at h
    rw [hlast, hother.key_injective hfile' (hlast'.2.trans hkey.symm)]
  exact Scan.mem_declared.2 ⟨hlast, by rw [hdoc, hcontent], hrefs⟩

/-! ## Candidates -/

/-- From every base the files that were met are met in the same order, and maybe the added one. -/
theorem filesFrom_grown {rules : CandidateRules} {base : Text} {files files' : List Text}
    (hhere : Path.anchorOf base = .here) (hdesc : Path.Descends (Path.partsOf base))
    (h : Candidate.filesFrom rules disk project base = .ok files)
    (h' : Candidate.filesFrom rules disk' project base = .ok files') :
    files = files'.filter fun file => decide (Path.partsOf file ≠ names) := by
  have hmeets := Candidate.filesFrom_meets hp hhere hdesc h
  have hmeets' := Candidate.filesFrom_meets hp' hhere hdesc h'
  have hparts : ∀ below b, tree'.find? (Path.partsOf base ++ below) = some (.file b) →
      Path.partsOf (Candidate.met (Text.join "/" (Path.partsOf base)) below) = Path.partsOf base ++ below := by
    intro below b hb
    have hall : ∀ p ∈ Path.partsOf base ++ below, IsPart p := fun p hm =>
      ((hp'.tree_wellFormed.find? hb).1 p hm).part
    rw [Candidate.met_join (fun p hm => (hdesc p hm).1) fun n hn => hall n (List.mem_append_right _ hn),
      Path.partsOf_join hall]
  refine hmeets.eq_filter hmeets' fun below => ?_
  rw [decide_eq_true_eq]
  constructor
  · rintro ⟨hne, hstands, hentered⟩
    obtain ⟨⟨b, hb⟩, hother⟩ := hgains.stands_iff.1 hstands
    exact ⟨⟨hne, ⟨b, hb⟩, hentered⟩, by rwa [hparts below b hb]⟩
  · rintro ⟨⟨hne, ⟨b, hb⟩, hentered⟩, hother⟩
    rw [hparts below b hb] at hother
    exact ⟨hne, hgains.stands_iff.2 ⟨⟨b, hb⟩, hother⟩, hentered⟩

theorem filesMet_grown {rules : CandidateRules} : ∀ {bases : List Text} {lists lists' : List (List Text)},
    (∀ base ∈ bases, Path.anchorOf base = .here ∧ Path.Descends (Path.partsOf base)) →
    bases.mapM (Candidate.filesFrom rules disk project) = .ok lists →
    bases.mapM (Candidate.filesFrom rules disk' project) = .ok lists' →
    lists.flatten = lists'.flatten.filter fun file => decide (Path.partsOf file ≠ names)
  | [], _, _, _, h, h' => by
    rw [List.mapM_nil] at h h'
    cases h
    cases h'
    rfl
  | base :: bases, lists, lists', hdown, h, h' => by
    rw [List.mapM_cons] at h h'
    obtain ⟨files, hfiles, h⟩ := bind_ok.1 h
    obtain ⟨rest, hrest, h⟩ := bind_ok.1 h
    obtain ⟨files', hfiles', h'⟩ := bind_ok.1 h'
    obtain ⟨rest', hrest', h'⟩ := bind_ok.1 h'
    cases h
    cases h'
    obtain ⟨hhere, hdesc⟩ := hdown base (List.mem_cons_self ..)
    have ih := filesMet_grown (fun b hb => hdown b (List.mem_cons_of_mem base hb)) hrest hrest'
    rw [List.flatten_cons, List.flatten_cons, List.filter_append, ← ih,
      ← filesFrom_grown hp hp' hgains hhere hdesc hfiles hfiles']

/-- The candidates that were there are those without the added file, in the same order. -/
theorem candidates_kept {rules : CandidateRules} {bases : List Text} {cs cs' : List (Text × Category)}
    (hbases : rules.bases = .ok bases)
    (hdown : ∀ base ∈ bases, Path.anchorOf base = .here ∧ Path.Descends (Path.partsOf base))
    (h : Candidate.all rules disk project = .ok cs) (h' : Candidate.all rules disk' project = .ok cs') :
    cs = cs'.filter fun c => decide (Path.partsOf c.1 ≠ names) := by
  obtain ⟨bases₁, lists, hbases₁, hlists, rfl⟩ := Candidate.all_ok.1 h
  obtain ⟨bases₂, lists', hbases₂, hlists', rfl⟩ := Candidate.all_ok.1 h'
  obtain rfl : bases₁ = bases := Except.ok.inj (hbases₁.symm.trans hbases)
  obtain rfl : bases₂ = bases₁ := Except.ok.inj (hbases₂.symm.trans hbases)
  have hsame : lists.flatten.eraseDups.filterMap (Candidate.candidate? rules disk project) =
      lists.flatten.eraseDups.filterMap (Candidate.candidate? rules disk' project) := by
    refine List.filterMap_congr fun file hfile => (candidate?_grown hp hp' hgains rules ?_).symm
    obtain ⟨files, hmem, hfile⟩ := List.mem_flatten.1 (List.mem_eraseDups.1 hfile)
    obtain ⟨base, hbase, hfrom⟩ := forall₂_mem_right (mapM_ok.1 hlists) hmem
    obtain ⟨hhere, hdesc⟩ := hdown base hbase
    obtain ⟨below, hshown, rfl⟩ := (Candidate.mem_filesFrom hp hhere hdesc hfrom).1 hfile
    exact hshown.isProjectFile hp.tree_wellFormed
  have hpath : ∀ {file c}, Candidate.candidate? rules disk' project file = some c → c.1 = file := fun hc =>
    (Candidate.candidate?_eq_some.1 hc).1
  rw [hsame, filesMet_grown hp hp' hgains hdown hlists hlists', ← filter_eraseDups, List.filterMap_filter,
    List.filter_filterMap]
  refine List.filterMap_congr fun file _ => ?_
  cases hc : Candidate.candidate? rules disk' project file with
  | none => simp
  | some c => simp [Option.filter, hpath hc]

/-- The candidates that were there come in the same order. -/
theorem candidates_grown {rules : CandidateRules} {bases : List Text} {cs cs' : List (Text × Category)}
    (hbases : rules.bases = .ok bases)
    (hdown : ∀ base ∈ bases, Path.anchorOf base = .here ∧ Path.Descends (Path.partsOf base))
    (h : Candidate.all rules disk project = .ok cs) (h' : Candidate.all rules disk' project = .ok cs') :
    cs.Sublist cs' := by
  rw [candidates_kept hp hp' hgains hbases hdown h h']
  exact List.filter_sublist

/-- What was found is found in the same order, and maybe more. -/
theorem findings_grown (hroom : disk'.around.nesting = disk.around.nesting) {config : ScanConfig} {bases : List Text}
    {cs cs' : List (Text × Category)} (hbases : config.rules.bases = .ok bases)
    (hdown : ∀ base ∈ bases, Path.anchorOf base = .here ∧ Path.Descends (Path.partsOf base))
    (h : Candidate.all config.rules disk project = .ok cs) (h' : Candidate.all config.rules disk' project = .ok cs') :
    (cs.flatMap (Scan.findingsIn config disk project)).Sublist (cs'.flatMap (Scan.findingsIn config disk' project)) := by
  have hsame : cs.flatMap (Scan.findingsIn config disk project) = cs.flatMap (Scan.findingsIn config disk' project) :=
    List.flatMap_congr fun c hc => (findingsIn_grown hp hp' hgains hroom config
      (Candidate.isProjectFile_of_mem_all hp h hbases hdown hc)).symm
  rw [hsame]
  exact (candidates_grown hp hp' hgains hbases hdown h h').flatMap _

end Same

/-! ## The results -/

/-- How the result of a scan relates to that of a scan which found more. -/
structure ScanResult.Grows (r r' : ScanResult) : Prop where
  /-- Every action is declared from the same file with the same content, and keeps its references. -/
  actions : ∀ a ∈ r.actions, ∃ a' ∈ r'.actions, a'.key = a.key ∧ a'.file = a.file ∧ a'.content = a.content ∧
    a.references.Sublist a'.references
  /-- What is to be reviewed is not safe to delete afterwards. -/
  reviewNeeded : ∀ a ∈ r.actions, a.confidence = .reviewNeeded → ∀ a' ∈ r'.actions, a'.key = a.key →
    a'.confidence = .reviewNeeded

theorem Action.confidence_cases (a : Action) : a.confidence = .safeToDelete ∨ a.confidence = .reviewNeeded := by
  cases a.confidence
  · exact .inl rfl
  · exact .inr rfl

/-- A file that is added to a project takes no reference away from any action. -/
theorem scan_grows {s s' : Scanner} {r r' : ScanResult} (hconfig : ScanSettings.standard.config = .ok s.config)
    (hsame : s'.project = s.project ∧ s'.config = s.config) (hp : disk.HasProject s.project place tree)
    (hp' : disk'.HasProject s.project place' tree') (hadd : tree.addFile? bytes names = some tree')
    (hroom : disk'.around.nesting = disk.around.nesting)
    (hscan : (s.scan disk).1 = .ok r) (hscan' : (s'.scan disk').1 = .ok r') : r.Grows r' := by
  have hstandard : s.config = ScanSettings.standardConfig :=
    Except.ok.inj (hconfig.symm.trans ScanSettings.standard_config)
  have hdirs : s.config.actionDirs = .ok ["app/api", "app/lib"] := by rw [hstandard]; rfl
  have hgains := Dir.gains_of_addFile? hadd
  obtain ⟨dirs, cs, folders, hc, hactions, -, -, -⟩ := Scanner.scan_ok hscan
  obtain ⟨dirs', cs', folders', hc', hactions', -, -, -⟩ := Scanner.scan_ok hscan'
  rw [hsame.1, hsame.2] at hc' hactions'
  obtain rfl := hc.dirs_unique hdirs
  obtain rfl := hc'.dirs_unique hdirs
  have hbases : s.config.rules.bases = .ok ScanSettings.standardBases := by rw [hstandard]; rfl
  have hfound := findings_grown hp hp' hgains hroom hbases ScanSettings.standardBases_lead_down hc.candidates_eq
    hc'.candidates_eq
  have hkept : ∀ a ∈ r.actions, ∃ a' ∈ r'.actions, a'.key = a.key ∧ a'.file = a.file ∧ a'.content = a.content ∧
      a.references.Sublist a'.references := by
    intro a ha
    rw [hactions, mem_rank, Scanner.finalIndex, Index.recordAll_actions] at ha
    obtain ⟨b, hb, rfl⟩ := List.mem_map.1 ha
    have hb' := mem_declared_grown hp hp' hgains hroom rfl hc.discoverable hc'.discoverable hb
    refine ⟨Index.attached (Finding.naming (cs'.flatMap (Scan.findingsIn s.config disk' s.project))) b, ?_, rfl, rfl, rfl,
      (List.Sublist.refl _).append (Finding.naming_sublist hfound b.key)⟩
    rw [hactions', mem_rank, Scanner.finalIndex, Index.recordAll_actions]
    exact List.mem_map_of_mem hb'
  refine ⟨hkept, fun a ha hreview a' ha' hkey => ?_⟩
  obtain ⟨b, hb, hbkey, -, -, hsub⟩ := hkept a ha
  obtain rfl : b = a' := List.inj_on_of_nodup_map (Scanner.nodup_keys hscan') hb ha' (hbkey.trans hkey.symm)
  refine b.confidence_cases.resolve_left fun hsafe => ?_
  -- an action without references had none before, and would have been safe to delete
  rw [Action.safe_iff.1 hsafe, List.sublist_nil, ← Action.safe_iff, hreview] at hsub
  cases hsub

/-- A page that names the action of the sample project that was safe to delete makes it one to be reviewed. -/
theorem sample_scan_grows :
    Sample.tree.addFile? (Utf8.encode Sample.page) ["views", "p.html"] = some Sample.grownTree ∧
    ∃ r r', (Sample.scanner.scan Sample.disk).1 = .ok r ∧ (Sample.scanner.scan Sample.grownDisk).1 = .ok r' ∧
      r.actions.map (·.confidence) = [.safeToDelete, .reviewNeeded] ∧
      r'.actions.map (·.confidence) = [.reviewNeeded, .reviewNeeded] ∧ r.Grows r' := by
  have hp : Sample.disk.HasProject Sample.project ["p"] Sample.tree :=
    ⟨by decide +kernel, by decide, rfl, by decide⟩
  have hp' : Sample.grownDisk.HasProject Sample.project ["p"] Sample.grownTree :=
    ⟨by decide +kernel, by decide, rfl, by decide⟩
  have hadd : Sample.tree.addFile? (Utf8.encode Sample.page) ["views", "p.html"] = some Sample.grownTree := by
    decide +kernel
  have hroom : Sample.grownDisk.around.nesting = Sample.disk.around.nesting := by decide
  have hrun : ∃ r, (Sample.scanner.scan Sample.disk).1 = .ok r ∧
      r.actions.map (·.confidence) = [.safeToDelete, .reviewNeeded] := Outcome.ok_of_check (by decide +kernel)
  have hrun' : ∃ r', (Sample.scanner.scan Sample.grownDisk).1 = .ok r' ∧
      r'.actions.map (·.confidence) = [.reviewNeeded, .reviewNeeded] := Outcome.ok_of_check (by decide +kernel)
  obtain ⟨r, hr, hactions⟩ := hrun
  obtain ⟨r', hr', hactions'⟩ := hrun'
  exact ⟨hadd, r, r', hr, hr', hactions, hactions',
    scan_grows ScanSettings.standard_config ⟨rfl, rfl⟩ hp hp' hadd hroom hr hr'⟩

end ActionSweep
