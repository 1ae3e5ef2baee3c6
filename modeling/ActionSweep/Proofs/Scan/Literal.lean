/-
No literal reference is missed. Under the standard settings an action has a reference from every text file
of a project without links that names its key literally: from a page by a URL behind a quote, from a JSON
file by an exec, module or queue field at any depth that is searched, and from a script by a fetch call.
-/
import ActionSweep.Proofs.Extract.Document
import ActionSweep.Proofs.Extract.Literal
import ActionSweep.Proofs.Sample

namespace ActionSweep

variable {disk : Disk} {project : Path} {place : List Text} {tree : Dir} {file key : Text}

/-- Where a file lies below a folder of the project, and that it has an ending. -/
structure FileBelow (base ending file : Text) where
  folders : List Text
  name : Text
  parts : Path.partsOf file = base :: (folders ++ [name])
  suffix : ending <:+ name

theorem FileBelow.spelled {base ending : Text} (below : FileBelow base ending file) (hfile : IsProjectFile tree file)
    (hclean : ∀ folder ∈ (Path.partsOf file).dropLast, folder ∉ ScanSettings.leftOut) :
    file = Text.join "/" (base :: (below.folders ++ [below.name])) ∧
      (∀ p ∈ base :: (below.folders ++ [below.name]), Path.IsPart p) ∧
      ∀ p ∈ base :: below.folders, p ∉ ScanSettings.leftOut := by
  rw [← below.parts]
  refine ⟨?_, fun p hp => (hfile.descends p hp).1, ?_⟩
  · have htext := hfile.text_eq
    rwa [Path.text_of_parts_ne_nil hfile.nonempty] at htext
  · rwa [below.parts, ← List.cons_append, List.dropLast_concat] at hclean

/-- How a file can name a key literally. -/
inductive NamesKey (disk : Disk) (project : Path) (file key : Text) : Prop
  /-- A page with a URL behind a quote. -/
  | page {base ending : String} (hbase : base = "views" ∨ base = "public") (hending : ending = ".html" ∨ ending = ".ejs")
    (below : FileBelow base ending file) {text url : Text} (hread : disk.readText (project.under file) = .ok text)
    (h : Extract.QuotesUrl text url) (hkey : Key.dropExtension url = key)
  /-- A JSON file with a field for a whole reference in some object. -/
  | document (below : FileBelow "app" ".json" file) {v : Value} (hread : disk.readJson (project.under file) = .ok v)
    (hfits : Extract.Fits .standard v) {depth : Nat} {fields : List (Text × Value)}
    (hinside : Extract.Inside v depth (.object fields)) {name value : Text} (hfield : (name, .text value) ∈ fields)
    (hname : name = "api_file" ∨ name = "exec" ∨ name = "module") (hkey : Key.ofReference .action value = some key)
  /-- A script with a fetch call, if it does not lie below a folder that is named like a page. -/
  | script {base : String} (hbase : base = "public" ∨ base = "views" ∨ base = "extensions")
    (below : FileBelow base ".js" file)
    (hpages : base ≠ "extensions" → ∀ f ∈ below.folders, ¬ ".html".toList <:+ f ∧ ¬ ".ejs".toList <:+ f)
    {text url : Text} (hread : disk.readText (project.under file) = .ok text)
    (h : Extract.Fetches text url) (hkey : Key.dropExtension url = key)

/-- A URL of the API is looked up as it is spelled, without the extension of declaration files. -/
theorem Key.ofReference_of_mark {lookup : Lookup} {url : Text} (h : apiMark <+: url) :
    ofReference lookup url = some (dropExtension url) := by
  obtain ⟨rest, rfl⟩ := h
  rw [ofReference_api]
  exact congrArg some (dropExtension_slash ['/', 'a', 'p', 'i'] rest).symm

namespace NamesKey

/-- What a file is searched as that names a key, and a reference that it has. -/
structure Found (disk : Disk) (project : Path) (file key : Text) where
  base : Text
  names : List Text
  category : Category
  raw : RawReference
  parts : Path.partsOf file = base :: names
  nonempty : names ≠ []
  mem_bases : base ∈ ScanSettings.standardBases
  classified : ScanSettings.standardRules.classify file = some category
  mem : raw ∈ Scan.referencesIn ScanSettings.standardConfig disk project (file, category)
  names_key : Key.ofReference .action raw.path = some key

theorem found (hfile : IsProjectFile tree file) (hline : '\n' ∉ file)
    (hclean : ∀ folder ∈ (Path.partsOf file).dropLast, folder ∉ ScanSettings.leftOut)
    (h : NamesKey disk project file key) : Nonempty (Found disk project file key) := by
  cases h with
  | @page base ending hbase hending below text url hread h hkey =>
    obtain ⟨hjoin, hparts, hfolders⟩ := below.spelled hfile hclean
    refine ⟨⟨base, below.folders ++ [below.name], .markup, ⟨url, .embeddedUrl⟩, below.parts, by simp, ?_, ?_, ?_, ?_⟩⟩
    · rcases hbase with rfl | rfl <;> decide
    · rw [hjoin]
      refine ScanSettings.classify_page hbase hending hparts ?_ (hjoin ▸ hline) below.suffix
      rwa [← List.cons_append, List.dropLast_concat]
    · unfold Scan.referencesIn Extract.markup
      simp only [hread]
      exact List.mem_append_right _ h.found
    · rw [← hkey]
      cases h with
      | behind => exact Key.ofReference_of_mark (List.prefix_append ..)
  | @document below v hread hfits depth fields hinside name value hfield hname hkey =>
    obtain ⟨hjoin, hparts, hfolders⟩ := below.spelled hfile hclean
    obtain ⟨raws, hraws, raw, hraw, hkey⟩ := (Extract.Calls.field hinside hfield hname hkey).found hfits
    refine ⟨⟨"app", below.folders ++ [below.name], .structured, raw, below.parts, by simp, by decide, ?_, ?_, hkey⟩⟩
    · rw [hjoin]
      exact ScanSettings.classify_json hparts (fun f hf => hfolders f (List.mem_cons_of_mem _ hf)) (hjoin ▸ hline)
        below.suffix
    · unfold Scan.referencesIn
      simp only [hread, ScanSettings.standardConfig, hraws]
      exact hraw
  | @script base hbase below hpages text url hread h hkey =>
    obtain ⟨hjoin, hparts, hfolders⟩ := below.spelled hfile hclean
    refine ⟨⟨base, below.folders ++ [below.name], .script, ⟨url, .scriptFetchCall⟩, below.parts, by simp, ?_, ?_, ?_,
      ?_⟩⟩
    · rcases hbase with rfl | rfl | rfl <;> decide
    · rw [hjoin]
      exact ScanSettings.classify_script hbase hparts hfolders (hjoin ▸ hline) below.suffix hpages
    · unfold Scan.referencesIn
      simp only [hread]
      exact h.found
    · rw [← hkey]
      cases h with
      | call _ call _ hmark => exact Key.ofReference_of_mark hmark

end NamesKey

/-- An action has a reference from every file that names its key literally, so it is not safe to delete. -/
theorem literal_referenced {s : Scanner} {r : ScanResult} {a : Action}
    (hconfig : ScanSettings.standard.config = .ok s.config) (hp : disk.HasProject s.project place tree)
    (hscan : (s.scan disk).1 = .ok r) (ha : a ∈ r.actions) (hfile : IsProjectFile tree file)
    (htext : FileKind.isTextFile disk (s.project.under file).text = true) (hline : '\n' ∉ file)
    (hclean : ∀ folder ∈ (Path.partsOf file).dropLast, folder ∉ ScanSettings.leftOut)
    (h : NamesKey disk s.project file a.key) :
    (∃ reference ∈ a.references, reference.source = file) ∧ a.confidence = .reviewNeeded := by
  have hstandard : s.config = ScanSettings.standardConfig :=
    Except.ok.inj (hconfig.symm.trans ScanSettings.standard_config)
  obtain ⟨found⟩ := h.found hfile hline hclean
  obtain ⟨dirs, candidates, folders, hc, -, -, -, -⟩ := Scanner.scan_ok hscan
  have hmem : (file, found.category) ∈ candidates := by
    refine ScanSettings.mem_candidates hp ?_ hfile found.parts found.nonempty found.mem_bases hclean found.classified htext
    rw [← hc.candidates_eq, hstandard]
    rfl
  have hreference := Scanner.reference_of_candidate hscan hc.candidates_eq hmem (hstandard ▸ found.mem) ha found.names_key
  refine ⟨⟨_, hreference, rfl⟩, ?_⟩
  cases hconfidence : a.confidence with
  | safeToDelete => exact absurd (Action.safe_iff.1 hconfidence) (List.ne_nil_of_mem hreference)
  | reviewNeeded => rfl

/-- The name and text of the only field of the only object of a list. -/
def onlyField? : Value → Option (Text × Text)
  | .list [.object [(name, .text t)]] => some (name, t)
  | _ => none

theorem onlyField?_eq_some {v : Value} {name t : Text} (h : onlyField? v = some (name, t)) :
    v = .list [.object [(name, .text t)]] := by
  unfold onlyField? at h
  split at h
  · cases h
    rfl
  · cases h

theorem fits_onlyField (name t : Text) : Extract.Fits .standard (.list [.object [(name, .text t)]]) := by
  rintro n w h
  cases h with
  | here => rfl
  | further hc h =>
    obtain rfl := List.mem_singleton.1 hc
    cases h with
    | here => rfl
    | further hc h => cases hc

theorem sample_page_quotes : Extract.QuotesUrl Sample.page "/api/a" := by
  have h : Extract.QuotesUrl ("<a href=" ++ '"' :: (Key.apiMark ++ (['a'] ++ "?b\">"))) (Key.apiMark ++ ['a']) :=
    .behind "<a href=" rfl (by decide) (Text.none_of_any (by decide)) (by rintro c ⟨⟩; decide)
  exact h

theorem sample_call_fetches : Extract.Fetches Sample.call "/api/a" :=
  .call [] ⟨[], [], '\x60', "/api/a", '\x60', [], by simp, by simp, by simp, rfl, rfl, by decide,
    Text.none_of_any (by decide)⟩ [] (by decide)

/-- A page, a JSON file and a script name one action. -/
theorem sample_literal_referenced :
    ∃ r, (Sample.scanner.scan (Sample.namedDisk Sample.queue Sample.literal)).1 = .ok r ∧ ∃ a ∈ r.actions,
      a.key = "/api/a" ∧ a.confidence = .reviewNeeded ∧
      ∀ file ∈ Sample.namingFiles,
        ∃ reference ∈ a.references, reference.source = file := by
  have hp : (Sample.namedDisk Sample.queue Sample.literal).HasProject Sample.project ["p"]
      (Sample.namedTree Sample.queue Sample.literal) := ⟨by decide +kernel, by decide, rfl, by decide⟩
  have hrun : ∃ r, (Sample.scanner.scan (Sample.namedDisk Sample.queue Sample.literal)).1 = .ok r ∧
      r.actions.map (·.key) = (["/api/a"] : List Text) := Outcome.ok_of_check (by decide +kernel)
  have hpage : ∃ t, (Sample.namedDisk Sample.queue Sample.literal).readText (Sample.project.under "views/p.html") =
      .ok t ∧ t = Sample.page := Outcome.ok_of_check (by decide +kernel)
  have hqueue : ∃ v, (Sample.namedDisk Sample.queue Sample.literal).readJson
      (Sample.project.under "app/jobs/q.json") = .ok v ∧ onlyField? v = some (("api_file" : Text), ("/app/api/a.json" : Text)) :=
    Outcome.ok_of_check (by decide +kernel)
  have hcall : ∃ t, (Sample.namedDisk Sample.queue Sample.literal).readText (Sample.project.under "views/s.js") =
      .ok t ∧ t = Sample.call := Outcome.ok_of_check (by decide +kernel)
  obtain ⟨r, hr, hkeys⟩ := hrun
  obtain ⟨_, hpage, rfl⟩ := hpage
  obtain ⟨v, hqueue, hfield⟩ := hqueue
  obtain rfl := onlyField?_eq_some hfield
  obtain ⟨_, hcall, rfl⟩ := hcall
  obtain ⟨a, ha, hkey⟩ : ∃ a ∈ r.actions, a.key = "/api/a" := List.mem_map.1 (hkeys ▸ List.mem_singleton_self _)
  have hfile : ∀ file ∈ Sample.namingFiles,
      IsProjectFile (Sample.namedTree Sample.queue Sample.literal) file := by
    intro file hin
    simp only [Sample.namingFiles, List.mem_cons, List.not_mem_nil, or_false] at hin
    rcases hin with rfl | rfl | rfl
    all_goals exact ⟨rfl, by decide, by unfold Path.Descends; decide, _, rfl⟩
  have htext : ∀ file ∈ Sample.namingFiles,
      FileKind.isTextFile (Sample.namedDisk Sample.queue Sample.literal) (Sample.project.under file).text = true := by
    decide +kernel
  have hpaths : ∀ file ∈ Sample.namingFiles, '\n' ∉ file ∧
      ∀ folder ∈ (Path.partsOf file).dropLast, folder ∉ ScanSettings.leftOut := by
    decide
  have hnames : ∀ file ∈ Sample.namingFiles,
      NamesKey (Sample.namedDisk Sample.queue Sample.literal) Sample.project file a.key := by
    intro file hin
    rw [hkey]
    simp only [Sample.namingFiles, List.mem_cons, List.not_mem_nil, or_false] at hin
    rcases hin with rfl | rfl | rfl
    · have hbelow : FileBelow "views" ".html" "views/p.html" := ⟨[], "p.html", rfl, by decide⟩
      exact .page (.inl rfl) (.inl rfl) hbelow hpage sample_page_quotes rfl
    · exact .document ⟨["jobs"], "q.json", rfl, by decide⟩ hqueue (fits_onlyField _ _)
        (.further (List.mem_singleton_self _) (.here _)) (List.mem_singleton_self _) (.inl rfl) (by decide)
    · exact .script (.inr (.inl rfl)) ⟨[], "s.js", rfl, by decide⟩ (by simp) hcall sample_call_fetches rfl
  have hreferenced := fun file hin => literal_referenced ScanSettings.standard_config hp hr ha (hfile file hin)
    (htext file hin) (hpaths file hin).1 (hpaths file hin).2 (hnames file hin)
  exact ⟨r, hr, a, ha, hkey, (hreferenced _ (List.mem_cons_self ..)).2, fun file hin => (hreferenced file hin).1⟩

/-- A script below a folder that is named like a page is searched as one. A fetch call between template
quotes is then missed, and its action is safe to delete. -/
theorem script_below_page_folder_missed :
    ScanSettings.standard.config = .ok Sample.scanner.config ∧
    (Sample.namedDisk .empty Sample.hidden).HasProject Sample.project ["p"] (Sample.namedTree .empty Sample.hidden) ∧
    IsProjectFile (Sample.namedTree .empty Sample.hidden) "views/a.ejs/s.js" ∧
    FileKind.isTextFile (Sample.namedDisk .empty Sample.hidden)
      (Sample.project.under "views/a.ejs/s.js").text = true ∧
    (∀ folder ∈ (Path.partsOf "views/a.ejs/s.js").dropLast, folder ∉ ScanSettings.leftOut) ∧
    Nonempty (FileBelow "views" ".js" "views/a.ejs/s.js") ∧
    (∃ text, (Sample.namedDisk .empty Sample.hidden).readText (Sample.project.under "views/a.ejs/s.js") = .ok text ∧
      Extract.Fetches text "/api/a") ∧
    ∃ r, (Sample.scanner.scan (Sample.namedDisk .empty Sample.hidden)).1 = .ok r ∧ ∃ a ∈ r.actions,
      a.key = "/api/a" ∧ a.references = [] ∧ a.confidence = .safeToDelete := by
  have hrun : ∃ r, (Sample.scanner.scan (Sample.namedDisk .empty Sample.hidden)).1 = .ok r ∧
      r.actions.map (fun a => (a.key, a.references)) = [(("/api/a" : Text), [])] := Outcome.ok_of_check (by decide +kernel)
  have hcall : ∃ t, (Sample.namedDisk .empty Sample.hidden).readText (Sample.project.under "views/a.ejs/s.js") = .ok t ∧
      t = Sample.call := Outcome.ok_of_check (by decide +kernel)
  obtain ⟨r, hr, hactions⟩ := hrun
  obtain ⟨_, hcall, rfl⟩ := hcall
  obtain ⟨a, ha, he⟩ := List.mem_map.1 (hactions ▸ List.mem_singleton_self _ :
    (("/api/a" : Text), ([] : List Reference)) ∈ r.actions.map fun a => (a.key, a.references))
  obtain ⟨hkey, hnone⟩ := Prod.mk.inj he
  exact ⟨ScanSettings.standard_config, ⟨by decide +kernel, by decide, rfl, by decide⟩,
    ⟨rfl, by decide, by unfold Path.Descends; decide, _, rfl⟩, by decide +kernel, by decide,
    ⟨⟨["a.ejs"], "s.js", rfl, by decide⟩⟩,
    ⟨_, hcall, sample_call_fetches⟩,
    r, hr, a, ha, hkey, hnone, Action.safe_iff.2 hnone⟩

end ActionSweep
