/-
A scan of what is left of a project when files of it were removed: the same action folders are there,
the same files are listed in the same order without the removed ones, and every file that stays is read
as before. So the rescan has every declaration and every candidate that does not come from a removed
file.
-/
import ActionSweep.Proofs.Scan.ActionFiles
import ActionSweep.Proofs.Scan.Candidates

namespace ActionSweep

open Outcome (bind_ok mapM_ok)
open ActionSweep.Path (Descends IsPart)

/-- Whether a place is that of one of some files of a project. -/
def placesOf (place : List Text) (files : List Text) (p : List Text) : Bool :=
  files.any fun f => decide (p = place ++ Path.partsOf f)

variable {disk : Disk} {project : Path} {place : List Text} {tree : Dir} {lost : List Text}

theorem placesOf_iff {p : List Text} :
    placesOf place lost p = true ↔ ∃ f ∈ lost, p = place ++ Path.partsOf f := by
  unfold placesOf
  simp [List.any_eq_true]

/-- A place in the project is that of a removed file if the text of its parts is. -/
theorem placesOf_text (hlost : ∀ f ∈ lost, IsProjectFile tree f) {parts : List Text} (h : Descends parts) :
    placesOf place lost (place ++ parts) = true ↔ (Path.mk .here parts).text ∈ lost := by
  rw [placesOf_iff]
  constructor
  · rintro ⟨f, hf, he⟩
    rw [List.append_cancel_left_eq] at he
    rw [he, ← (hlost f hf).text_eq]
    exact hf
  · intro hf
    exact ⟨_, hf, by rw [partsOf_text h]⟩

/-- What a project is left with when files of it are removed. -/
abbrev Disk.withoutFiles (disk : Disk) (place : List Text) (lost : List Text) : Disk :=
  disk.without (placesOf place lost)

namespace Scan

/-! ## Action files -/

/-- Whether a path of an action folder is not that of a removed file. -/
def stays (project : Path) (lost : List Text) (p : Path) : Bool :=
  match Path.relativeTo? project p with
  | some q => !lost.contains q.text
  | none => true

theorem listed_without (hroot : disk.root.WellFormed) {gone : List Text → Bool} (path : Path) (e e' : Entry)
    {spot : List Text} (h : e.drop gone spot = some e') :
    listed (disk.without gone) path e' = listed disk path e := by
  cases e with
  | file b =>
    unfold Entry.drop at h
    simp only [Option.ite_none_left_eq_some] at h
    cases h.2
    rfl
  | link t =>
    cases h
    unfold listed
    rw [Disk.leadsToFolder_without hroot]
  | folder d => cases h; rfl

/-- An entry that is not removed stays the JSON file that it is. -/
theorem jsonFileAt?_of_kept (hroot : disk.root.WellFormed) {gone : List Text → Bool} {root : Path} {parts here : List Text}
    {e e' : Entry} (he : e.drop gone here = some e') :
    jsonFileAt? (disk.without gone) root (parts, e') = jsonFileAt? disk root (parts, e) := by
  unfold jsonFileAt?
  simp only [listed_without hroot _ e e' he]

theorem stays_of_relative {p q : Path} (h : Path.relativeTo? project p = some q) :
    stays project lost p = !lost.contains q.text := by
  unfold stays
  rw [h]

/-- An entry of an action folder is listed afterwards if it was listed before and stays. -/
theorem jsonFileAt?_without (hp : disk.HasProject project place tree) (hlost : ∀ f ∈ lost, IsProjectFile tree f)
    {dir : Text} (hdots : (['.', '.'] : Text) ∉ Path.partsOf dir) {top : List Text} {d : Dir}
    (hroot : disk.resolve .target (project.under dir).text = .ok (.found top (.folder d)))
    {parts : List Text} {e : Entry} (hne : parts ≠ []) (hfind : d.find? parts = some e)
    (hrel : ∀ p, jsonFileAt? disk (project.under dir) (parts, e) = some p →
      ∃ q, Path.relativeTo? project p = some q) :
    ((e.drop (placesOf place lost) (top ++ parts)).map (parts, ·)).bind
        (jsonFileAt? (disk.withoutFiles place lost) (project.under dir)) =
      (jsonFileAt? disk (project.under dir) (parts, e)).filter (stays project lost) := by
  rcases hjson : jsonFileAt? disk (project.under dir) (parts, e) with _ | p
  · rcases hdrop : e.drop (placesOf place lost) (top ++ parts) with _ | e'
    · rfl
    · exact (jsonFileAt?_of_kept hp.wellFormed hdrop).trans hjson
  obtain ⟨q, hq⟩ := hrel p hjson
  obtain ⟨rfl, hlisted, -⟩ := jsonFileAt?_eq_some.1 hjson
  have hnofolder := not_folder_of_listed hlisted
  obtain ⟨hhere, hdesc, hcases⟩ := stands_of_relative hp hdots hroot hne hfind hnofolder hq
  have htext : q.text = (Path.mk .here q.parts).text := by
    obtain ⟨qanchor, qparts⟩ := q
    simp only at hhere
    rw [hhere]
  simp only [Option.filter, stays_of_relative hq]
  cases e with
  | folder inside => exact absurd rfl (hnofolder inside)
  | link t =>
    -- what is lost is a file of the project, and the project has no links
    have hno : q.text ∉ lost := by
      intro hmem
      have hfile := hlost _ hmem
      rcases hcases with ⟨hnil, -⟩ | ⟨hqne, -, hstands⟩
      · exact hfile.nonempty (by rw [htext, partsOf_text hdesc, hnil])
      · exact (hp.linkFree.find? hstands).1 t rfl
    simp only [List.contains_eq_mem, hno, decide_false, Bool.not_false, if_true]
    have hkept : Entry.drop (placesOf place lost) (top ++ parts) (.link t) = some (.link t) := rfl
    exact (jsonFileAt?_of_kept hp.wellFormed hkept).trans hjson
  | file b =>
    obtain ⟨hnil, t, ht⟩ | ⟨hqne, hspot, hstands⟩ := hcases
    · cases ht
    have hgone : placesOf place lost (top ++ parts) = lost.contains q.text := by
      rw [Bool.eq_iff_iff, hspot, placesOf_text hlost hdesc, ← htext, List.contains_iff_mem]
    rcases hc : lost.contains q.text
    · have hkept := Entry.drop_kept b (hgone.trans hc)
      rw [hkept]
      exact (jsonFileAt?_of_kept hp.wellFormed hkept).trans hjson
    · rw [Entry.drop_gone b (hgone.trans hc)]
      rfl

/-- What is left of a folder can be entered wherever the folder could. -/
theorem CanEnter.without (hroot : disk.root.WellFormed) {gone : List Text → Bool} {root : Path} {d : Dir}
    (h : CanEnter disk root (d.contents [])) (top : List Text) :
    CanEnter (disk.without gone) root ((d.drop gone top).contents []) := by
  intro parts left hmem
  obtain ⟨e, he, hdrop⟩ := Dir.mem_contents_left hmem
  obtain ⟨inside, rfl, -⟩ := Entry.drop_folder hdrop
  obtain ⟨listed, hlisted⟩ := h parts inside he
  obtain ⟨spot, hspot⟩ := Disk.list_ok.1 hlisted
  exact ⟨_, Disk.list_without hroot hspot⟩

/-- Below an action folder the same files are listed, without the removed ones. -/
theorem actionFiles_without (hp : disk.HasProject project place tree) (hlost : ∀ f ∈ lost, IsProjectFile tree f)
    {dir : Text} (hdots : (['.', '.'] : Text) ∉ Path.partsOf dir) {files : List Text}
    (h : actionFiles disk project (project.under dir) = .ok files) :
    actionFiles (disk.withoutFiles place lost) project (project.under dir) =
      .ok (files.filter fun t => !lost.contains t) := by
  obtain ⟨d, relative, hd, henter, hrel, rfl⟩ := actionFiles_ok.1 h
  obtain ⟨top, hroot⟩ := Disk.list_ok.1 hd
  have hwf := Disk.wellFormed_of_resolve hp.wellFormed (hp.normal.under dir) hroot
  -- entry by entry: what is left of an entry is a JSON file exactly if it was one and stays
  have hjson : ((d.drop (placesOf place lost) top).contents []).filterMap
        (jsonFileAt? (disk.withoutFiles place lost) (project.under dir)) =
      ((d.contents []).filterMap (jsonFileAt? disk (project.under dir))).filter (stays project lost) := by
    rw [Dir.contents_left, List.filterMap_filterMap, List.filter_filterMap]
    refine List.filterMap_congr fun x hx => ?_
    obtain ⟨parts, e⟩ := x
    obtain ⟨more, hne, rfl, hfind⟩ := (Dir.mem_contents hwf).1 hx
    refine jsonFileAt?_without hp hlost hdots hroot hne hfind fun p hp' => ?_
    obtain ⟨t, -, q, hq, -⟩ := forall₂_mem_left hrel (List.mem_filterMap.2 ⟨_, hx, hp'⟩)
    exact ⟨q, hq⟩
  refine actionFiles_ok.2 ⟨_, relative.filter fun t => !lost.contains t, Disk.list_without hp.wellFormed hroot,
    henter.without hp.wellFormed top, ?_, ?_⟩
  · rw [hjson]
    refine List.rel_filter (fun p t hpt => ?_) hrel
    obtain ⟨q, hq, rfl⟩ := hpt
    simp only [stays, hq]
  · exact (Text.sort_filter _ relative).symm

/-- The action files afterwards are those before, in their order, without the removed ones. -/
theorem actionPaths_without (hp : disk.HasProject project place tree) (hlost : ∀ f ∈ lost, IsProjectFile tree f)
    {dirs : List Text} (hdots : ∀ dir ∈ dirs, (['.', '.'] : Text) ∉ Path.partsOf dir)
    (hlists : ∀ dir ∈ dirs, disk.leadsToFolder (project.under dir).text = true →
      ∃ files, actionFiles disk project (project.under dir) = .ok files) :
    actionPaths dirs (disk.withoutFiles place lost) project =
      (actionPaths dirs disk project).filter fun t => !lost.contains t := by
  unfold actionPaths
  rw [List.filter_flatMap]
  simp only [Disk.leadsToFolder_without hp.wellFormed]
  refine List.flatMap_congr fun root hroot => ?_
  obtain ⟨hmem, hfolder⟩ := List.mem_filter.1 hroot
  obtain ⟨dir, hdir, rfl⟩ := List.mem_map.1 hmem
  obtain ⟨files, hfiles⟩ := hlists dir hdir hfolder
  unfold filesOf
  rw [hfiles, actionFiles_without hp hlost (hdots dir hdir) hfiles]

/-! ## Documents -/

/-- Whether a path does not lead to a removed file. -/
def Spared (disk : Disk) (project : Path) (gone : List Text → Bool) (path : Text) : Prop :=
  ∀ p b, disk.resolve .target (project.under path).text = .ok (.found p (.file b)) → gone p = false

variable {gone : List Text → Bool}

/-- A file that is spared is read as before; what could not be read cannot be read afterwards. -/
theorem readJson_without (hroot : disk.root.WellFormed) {path : Text} (h : Spared disk project gone path) :
    (disk.without gone).readJson (project.under path) = disk.readJson (project.under path) ∨
      (∃ f, disk.readJson (project.under path) = .error (.file f)) ∧
        ∃ f, (disk.without gone).readJson (project.under path) = .error (.file f) := by
  unfold Disk.readJson
  rcases Disk.read_without hroot (project.under path).text h with hr | ⟨⟨f, hf⟩, f', hf'⟩
  · exact .inl (by rw [hr]; rfl)
  · exact .inr ⟨⟨f, by rw [hf]; rfl⟩, f', by rw [hf']; rfl⟩

theorem readText_without (hroot : disk.root.WellFormed) {path : Text} (h : Spared disk project gone path) :
    (disk.without gone).readText (project.under path) = disk.readText (project.under path) ∨
      (∃ f, disk.readText (project.under path) = .error (.file f)) ∧
        ∃ f, (disk.without gone).readText (project.under path) = .error (.file f) := by
  unfold Disk.readText
  rcases Disk.read_without hroot (project.under path).text h with hr | ⟨⟨f, hf⟩, f', hf'⟩
  · exact .inl (by rw [hr])
  · exact .inr ⟨⟨f, by rw [hf]; rfl⟩, f', by rw [hf']; rfl⟩

theorem documentAt_without (hroot : disk.root.WellFormed) {path : Text} (h : Spared disk project gone path) :
    (disk.without gone).documentAt project path = disk.documentAt project path := by
  unfold Disk.documentAt
  rcases readJson_without hroot h with hr | ⟨⟨f, hf⟩, f', hf'⟩
  · rw [hr]
  · rw [hf, hf']

theorem readable_without (hroot : disk.root.WellFormed) {path : Text} (h : Spared disk project gone path)
    (hread : disk.Readable project path) : (disk.without gone).Readable project path := by
  unfold Disk.Readable at hread ⊢
  rcases readJson_without hroot h with hr | ⟨-, f', hf'⟩
  · rw [hr]
    exact hread
  · rw [hf']
    rintro _ ⟨⟩
    rfl

/-- A candidate that is spared says what it said before. -/
theorem referencesIn_without (hroot : disk.root.WellFormed) (config : ScanConfig) {c : Text × Category}
    (h : Spared disk project gone c.1) :
    referencesIn config (disk.without gone) project c = referencesIn config disk project c := by
  obtain ⟨path, category⟩ := c
  unfold referencesIn
  cases category with
  | structured =>
    rcases readJson_without hroot h with hr | ⟨⟨f, hf⟩, f', hf'⟩
    · simp only [hr]
    · simp only [hf, hf']
  | markup | script =>
    rcases readText_without hroot h with hr | ⟨⟨f, hf⟩, f', hf'⟩
    · simp only [hr]
    · simp only [hf, hf']

theorem searchable_without (hroot : disk.root.WellFormed) {config : ScanConfig} {c : Text × Category}
    (h : Spared disk project gone c.1) (hsearch : Searchable config disk project c) :
    Searchable config (disk.without gone) project c := by
  obtain ⟨path, category⟩ := c
  unfold Searchable at hsearch ⊢
  cases category with
  | structured =>
    exact ⟨readable_without hroot h hsearch.1, fun hne => hsearch.2 (documentAt_without hroot h ▸ hne)⟩
  | markup | script =>
    intro f hf
    rcases readText_without hroot h with hr | ⟨-, f', hf'⟩
    · exact hsearch f (by simpa only [hr] using hf)
    · simp only [hf'] at hf
      cases hf
      rfl

/-- An action file that is not removed does not lead to a removed file. -/
theorem stays_of_mem_actionPaths (hp : disk.HasProject project place tree)
    (hlost : ∀ f ∈ lost, IsProjectFile tree f) {dirs : List Text}
    (hdots : ∀ dir ∈ dirs, (['.', '.'] : Text) ∉ Path.partsOf dir) {path : Text}
    (hpath : path ∈ actionPaths dirs disk project) (hstays : path ∉ lost) :
    Spared disk project (placesOf place lost) path := by
  intro p b hr
  obtain ⟨hfile, hspot, -⟩ := leads_of_mem_actionPaths hp hdots hpath hr
  rw [hspot, Bool.eq_false_iff, ne_eq, placesOf_text hlost hfile.descends, ← hfile.text_eq]
  exact hstays

/-! ## Declared actions -/

/-- Keys that no removed file declares are declared by the same files. -/
theorem declaring_without (hp : disk.HasProject project place tree) (hlost : ∀ f ∈ lost, IsProjectFile tree f)
    {dirs : List Text} (hdots : ∀ dir ∈ dirs, (['.', '.'] : Text) ∉ Path.partsOf dir)
    (hlists : ∀ dir ∈ dirs, disk.leadsToFolder (project.under dir).text = true →
      ∃ files, actionFiles disk project (project.under dir) = .ok files)
    {key : Text} (hkey : ∀ f ∈ lost, Key.ofDeclaration f ≠ key) :
    declaring (disk.withoutFiles place lost) project (actionPaths dirs (disk.withoutFiles place lost) project) key =
      declaring disk project (actionPaths dirs disk project) key := by
  unfold declaring
  rw [actionPaths_without hp hlost hdots hlists, List.filter_filter]
  refine List.filter_congr fun path hpath => ?_
  by_cases hk : Key.ofDeclaration path = key
  · have hstays : path ∉ lost := fun h => hkey path h hk
    have hdoc := documentAt_without hp.wellFormed (stays_of_mem_actionPaths hp hlost hdots hpath hstays)
    simp only [hdoc, List.contains_eq_mem, hstays, decide_false, Bool.not_false, Bool.and_true]
  · simp only [hk, decide_false, Bool.and_false, Bool.false_and]

/-- An action whose key no removed file declares is declared as before. -/
theorem mem_declared_without (hp : disk.HasProject project place tree) (hlost : ∀ f ∈ lost, IsProjectFile tree f)
    {dirs : List Text} (hdots : ∀ dir ∈ dirs, (['.', '.'] : Text) ∉ Path.partsOf dir)
    (hlists : ∀ dir ∈ dirs, disk.leadsToFolder (project.under dir).text = true →
      ∃ files, actionFiles disk project (project.under dir) = .ok files)
    {a : Action} (ha : a ∈ (declared dirs disk project).actions) (hkey : ∀ f ∈ lost, Key.ofDeclaration f ≠ a.key) :
    a ∈ (declared dirs (disk.withoutFiles place lost) project).actions := by
  obtain ⟨hpath, -, hk⟩ := file_of_mem_declared ha
  obtain ⟨hlast, hcontent, hrefs⟩ := mem_declared.1 ha
  have hstays : a.file ∉ lost := fun h => hkey a.file h hk
  have hdoc := documentAt_without hp.wellFormed (stays_of_mem_actionPaths hp hlost hdots hpath hstays)
  exact mem_declared.2 ⟨by rw [declaring_without hp hlost hdots hlists hkey, hlast], by rw [hdoc, hcontent], hrefs⟩

end Scan

/-! ## Candidates -/

namespace Candidate

/-- Whether a name is that of a file that is looked at when files were removed. -/
def remains (disk : Disk) (project : Path) (gone : List Text → Bool) (path : Text) : Bool :=
  FileKind.isTextFile (disk.without gone) (project.under path).text

/-- A name that a walk gives to a removed file is not that of a file any more. -/
theorem remains_met {gone : List Text → Bool} (hroot : disk.root.WellFormed) (hproject : project.Normal)
    {path : Text} {spot names : List Text} {d : Dir} {b : Bytes}
    (hstart : disk.leads .target (project.under path) = .ok (.found spot (.folder d))) (hne : names ≠ [])
    (hfind : d.find? names = some (.file b)) (hgone : gone (spot ++ names) = true) :
    remains disk project gone (met path names) = false := by
  have hwf := (hroot.find? (Disk.resolveParts_found hstart)).2 d rfl
  have hleads : disk.leads .entry (project.under (met path names)) = .ok (.found (spot ++ names) (.file b)) := by
    rw [Disk.leads_congr (under_met project names path fun n hn => ((hwf.find? hfind).1 n hn).part)]
    exact Disk.leads_names hroot (by decide) hstart hne hfind (.inl rfl)
  unfold remains FileKind.isTextFile
  split
  · rename_i p b' hr
    obtain ⟨hr', hstays⟩ := Disk.resolve_file_of_without hroot (by decide) hr
    rw [((Disk.resolve_text_ok (hproject.under _)).1 hr').2] at hleads
    cases hleads
    rw [hgone] at hstays
    cases hstays
  · rfl

theorem filesFrom_without (gone : List Text → Bool) (hroot : disk.root.WellFormed) (hproject : project.Normal)
    {rules : CandidateRules} {base : Text} {files : List Text} (h : filesFrom rules disk project base = .ok files) :
    ∃ files', filesFrom rules (disk.without gone) project base = .ok files' ∧
      files'.filter (remains disk project gone) = files.filter (remains disk project gone) := by
  have hlinks : (fun p => (disk.without gone).leadsToFolder (project.under p).text) =
      fun p => disk.leadsToFolder (project.under p).text :=
    funext fun p => Disk.leadsToFolder_without hroot _
  rcases filesFrom_ok.1 h with ⟨hb, rfl⟩ | ⟨d, hb, hd, rfl⟩
  · exact ⟨[], filesFrom_ok.2 (.inl ⟨by rw [Disk.isFolder_without hroot, hb], rfl⟩), rfl⟩
  · obtain ⟨spot, hr⟩ := Disk.list_ok.1 hd
    have hleads := ((Disk.resolve_text_ok (hproject.under base)).1 hr).2
    have hwf := (hroot.find? (Disk.resolveParts_found hleads)).2 d rfl
    refine ⟨_, filesFrom_ok.2 (.inr ⟨_, by rw [Disk.isFolder_without hroot, hb], Disk.list_without hroot hr, rfl⟩), ?_⟩
    rw [hlinks]
    refine walk_drop hwf fun names b hne hfind hgone => ?_
    exact remains_met hroot hproject (by rw [under_startName hproject, hleads]) hne hfind hgone

theorem mapM_filesFrom_without (gone : List Text → Bool) (hroot : disk.root.WellFormed)
    (hproject : project.Normal) {rules : CandidateRules} : ∀ {bases : List Text} {lists : List (List Text)},
      bases.mapM (filesFrom rules disk project) = .ok lists →
      ∃ lists', bases.mapM (filesFrom rules (disk.without gone) project) = .ok lists' ∧
        lists'.flatten.filter (remains disk project gone) = lists.flatten.filter (remains disk project gone)
  | [], lists, h => by
    rw [List.mapM_nil] at h
    cases h
    exact ⟨[], rfl, rfl⟩
  | base :: bases, lists, h => by
    rw [List.mapM_cons] at h
    obtain ⟨files, hfiles, h⟩ := bind_ok.1 h
    obtain ⟨lists, hlists, h⟩ := bind_ok.1 h
    cases h
    obtain ⟨files', hfiles', hf⟩ := filesFrom_without gone hroot hproject hfiles
    obtain ⟨lists', hlists', hl⟩ := mapM_filesFrom_without gone hroot hproject hlists
    refine ⟨files' :: lists', ?_, ?_⟩
    · rw [List.mapM_cons]
      exact bind_ok.2 ⟨files', hfiles', bind_ok.2 ⟨lists', hlists', rfl⟩⟩
    · rw [List.flatten_cons, List.flatten_cons, List.filter_append, List.filter_append, hf, hl]

theorem isTextFile_of_remains {gone : List Text → Bool} (hroot : disk.root.WellFormed) {path : Text}
    (h : remains disk project gone path = true) : FileKind.isTextFile disk (project.under path).text = true := by
  unfold remains FileKind.isTextFile at h
  unfold FileKind.isTextFile
  split at h
  · rename_i p b hr
    rw [(Disk.resolve_file_of_without hroot (by decide) hr).1]
    exact h
  · cases h

theorem candidate?_without {gone : List Text → Bool} (hroot : disk.root.WellFormed) (rules : CandidateRules)
    (path : Text) :
    candidate? rules (disk.without gone) project path =
      (candidate? rules disk project path).filter fun c => remains disk project gone c.1 := by
  unfold candidate?
  rcases rules.classify path with _ | category
  · rfl
  rcases hr : remains disk project gone path
  · have hr' : FileKind.isTextFile (disk.without gone) (project.under path).text = false := hr
    by_cases ht : FileKind.isTextFile disk (project.under path).text = true
    · simp [hr', ht, Option.filter, hr]
    · simp [hr', ht]
  · have ht := isTextFile_of_remains hroot hr
    have hr' : FileKind.isTextFile (disk.without gone) (project.under path).text = true := hr
    simp [hr', ht, Option.filter, hr]

/-- The candidates afterwards are those before, in their order, as far as their files remain. -/
theorem all_without {gone : List Text → Bool} (hroot : disk.root.WellFormed) (hproject : project.Normal)
    {rules : CandidateRules} {cs : List (Text × Category)} (h : all rules disk project = .ok cs) :
    all rules (disk.without gone) project = .ok (cs.filter fun c => remains disk project gone c.1) := by
  obtain ⟨bases, lists, hbases, hlists, rfl⟩ := all_ok.1 h
  obtain ⟨lists', hlists', hflat⟩ := mapM_filesFrom_without gone hroot hproject hlists
  refine all_ok.2 ⟨bases, lists', hbases, hlists', ?_⟩
  -- only files that remain can be candidates, and of these both walks meet the same
  have hremains : ∀ l : List Text, l.filterMap (candidate? rules (disk.without gone) project) =
      (l.filter (remains disk project gone)).filterMap (candidate? rules (disk.without gone) project) := by
    intro l
    rw [List.filterMap_filter]
    refine List.filterMap_congr fun path _ => ?_
    split
    · rfl
    · rename_i hr
      have hr' : FileKind.isTextFile (disk.without gone) (project.under path).text = false := by
        simpa [remains] using hr
      unfold candidate?
      rcases rules.classify path with _ | category
      · rfl
      · simp [hr']
  rw [hremains, filter_eraseDups, hflat, ← filter_eraseDups, ← hremains, List.filter_filterMap]
  exact List.filterMap_congr fun path _ => (candidate?_without hroot rules path).symm

/-- A candidate that remains does not lead to a removed file. -/
theorem spared_of_remains {gone : List Text → Bool} (hroot : disk.root.WellFormed) (hproject : project.Normal)
    {path : Text} (h : remains disk project gone path = true) : Scan.Spared disk project gone path := by
  intro p b hr
  unfold remains FileKind.isTextFile at h
  split at h
  · rename_i p' b' hr'
    obtain ⟨hentry, hg⟩ := Disk.resolve_file_of_without hroot (by decide) hr'
    rw [Disk.resolve_entry (hproject.under path) hentry] at hr
    cases hr
    exact hg
  · cases h

end Candidate

end ActionSweep
