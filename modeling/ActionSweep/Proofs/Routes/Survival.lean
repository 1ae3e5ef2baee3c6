/-
The index of references and the routing table, compared by a deletion: after all actions that are safe
to delete are gone, a route is dead only if it was dead before, or if it leads to the file of one of them
by a spelling that the index does not read as the key of that action. Plainly spelled routes are safe.
-/
import ActionSweep.Proofs.Deletion.Actions
import ActionSweep.Proofs.Extract.Document
import ActionSweep.Proofs.FileKind
import ActionSweep.Proofs.Routes.Spelling
import ActionSweep.Proofs.Routes.Table
import ActionSweep.Proofs.Sample
import ActionSweep.Proofs.Scan.Candidates
import ActionSweep.Proofs.Settings.Standard

namespace ActionSweep

open ActionSweep.Path (Descends)
open RouteTable (Names NamesGone LeadsToGone)

variable {disk : Disk} {project : Path} {place : List Text} {tree : Dir}

/-! ## The standard table -/

/-- Where the routing table stands in a project. -/
def tablePath : Text := "app/config/routes.json"

theorem ScanSettings.standard_routeTable (project : Path) :
    standard.routeTable project = .ok (.new project tablePath) := rfl

/-- A routing table that can be read is a file of the project, and leads nowhere else. -/
theorem table_leads (hp : disk.HasProject project place tree) {v : Value}
    (hread : disk.readJson (project.under tablePath) = .ok v) :
    IsProjectFile tree tablePath ∧ ∀ spot b,
      disk.resolve .target (project.under tablePath).text = .ok (.found spot (.file b)) →
        spot = place ++ Path.partsOf tablePath := by
  have hleads : ∀ spot b, disk.resolve .target (project.under tablePath).text = .ok (.found spot (.file b)) →
      spot = place ++ Path.partsOf tablePath ∧ tree.find? (Path.partsOf tablePath) = some (.file b) := by
    intro spot b hr
    refine (hp.leads_iff (show Disk.Aim.target ≠ .writing by decide) (by decide) (by unfold Descends; decide)).1 ?_
    exact ((Disk.resolve_text_ok (hp.normal.under tablePath)).1 hr).2
  obtain ⟨spot, b, hr⟩ := Disk.found_of_readJson hread
  exact ⟨⟨rfl, by decide, by unfold Descends; decide, b, (hleads spot b hr).2⟩, fun spot b hr => (hleads spot b hr).1⟩

/-- The standard settings search a routing table that can be read as a document. -/
theorem table_mem_candidates (hp : disk.HasProject project place tree) {v : Value}
    (hread : disk.readJson (project.under tablePath) = .ok v) {candidates : List (Text × Category)}
    (hall : Candidate.all ScanSettings.standardRules disk project = .ok candidates) :
    (tablePath, Category.structured) ∈ candidates := by
  obtain ⟨hfile, -⟩ := table_leads hp hread
  obtain ⟨b, hb⟩ := hfile.stands
  have hshort : '\x00' ∉ (project.under tablePath).text ∧
      (Utf8.encode (project.under tablePath).text).length ≤ Disk.pathLimit := by
    obtain ⟨spot, c, hr⟩ := Disk.found_of_readJson hread
    exact ((Disk.resolve_text_ok (hp.normal.under tablePath)).1 hr).1
  have htext : FileKind.isTextFile disk (project.under tablePath).text = true := by
    have hentry : disk.resolve .entry (project.under tablePath).text =
        .ok (.found (place ++ Path.partsOf tablePath) (.file b)) := by
      refine (Disk.resolve_text_ok (hp.normal.under tablePath)).2 ⟨hshort, ?_⟩
      rw [hfile.under]
      exact (hp.leads_iff (by decide) hfile.nonempty hfile.descends).2 ⟨rfl, hb⟩
    have hname : FileKind.baseName (project.under tablePath).text = "routes.json" := by
      rw [hfile.under, show project.parts ++ Path.partsOf tablePath =
        project.parts ++ (["app", "config"] : List Text) ++ (["routes.json"] : List Text) by rw [List.append_assoc]; rfl]
      exact FileKind.baseName_text _ (by simp) (by decide)
    exact FileKind.isTextFile_of_name hentry (by rw [hname]; decide +kernel)
  exact ScanSettings.mem_candidates hp hall hfile rfl (List.cons_ne_nil _ _) (by decide) (by decide) (by decide +kernel) htext

/-- What an exec of the routing table names in the index is a reference of the action with that key. -/
theorem referenced_of_route {s : Scanner} {r : ScanResult} {fields : List (Text × Value)} {routes : List Value}
    {route : List (Text × Value)} {exec : Text} {a : Action}
    (hconfig : s.config = ScanSettings.standardConfig) (hp : disk.HasProject s.project place tree)
    (hscan : (s.scan disk).1 = .ok r) (hread : disk.readJson (s.project.under tablePath) = .ok (.object fields))
    (hroutes : Value.fieldD fields "routes" = .list routes) (hfits : Extract.Fits .standard (.object fields))
    (hroute : .object route ∈ routes) (hexec : Value.fieldD route "exec" = .text exec) (ha : a ∈ r.actions)
    (hkey : Key.ofReference .action exec = some a.key) : a.references ≠ [] := by
  obtain ⟨dirs, candidates, folders, hc, -, -, -, -⟩ := Scanner.scan_ok hscan
  -- a route is nested two levels deep: in the list, and in the table
  have hinside : Extract.Inside (.object fields) 2 (.object route) :=
    .further (List.mem_filter.2 ⟨List.mem_map_of_mem (Value.mem_of_fieldD hroutes (by rintro ⟨⟩)), rfl⟩)
      (.further (List.mem_filter.2 ⟨hroute, rfl⟩) (.here _))
  obtain ⟨raws, hraws, raw, hraw, hkey⟩ :=
    (Extract.Calls.field hinside (Value.mem_of_fieldD hexec (by rintro ⟨⟩)) (.inr (.inl rfl)) hkey).found hfits
  have hrefs : Scan.referencesIn s.config disk s.project (tablePath, .structured) = raws := by
    unfold Scan.referencesIn
    rw [hconfig]
    simp only [hread, ScanSettings.standardConfig, hraws]
  have hmem := table_mem_candidates hp hread (by rw [← hc.candidates_eq, hconfig]; rfl)
  exact List.ne_nil_of_mem (Scanner.reference_of_candidate hscan hc.candidates_eq hmem (hrefs ▸ hraw) ha hkey)

/-! ## Routes after the deletion -/

/-- Two names below a project that lead to one file. -/
def SameFile (disk : Disk) (project : Path) (f g : Text) : Prop :=
  ∃ spot b, disk.resolve .target (project.under f).text = .ok (.found spot (.file b)) ∧
    disk.resolve .target (project.under g).text = .ok (.found spot (.file b))

/-- How a route can lead to the file of an action that has no reference from it. -/
inductive Strays (disk : Disk) (project : Path) (route : List (Text × Value)) (a : Action) : Prop
  /-- By an exec that the index reads as another key. -/
  | exec {t f : Text} (h : Value.fieldD route "exec" = .text t) (hf : Key.routeFile t = some f)
    (same : SameFile disk project f a.file) (other : Key.ofReference .action t ≠ some a.key)
  /-- By a page or layout whose path leaves the folder of views. -/
  | view {target : RouteTarget} {f : Text} (names : Names route target f) (hview : target ≠ .exec)
    (same : SameFile disk project f a.file) (up : (['.', '.'] : Text) ∈ Path.partsOf f)

/-- A route without two dots in its paths, and whose exec begins with a mark and leads to a file by the
normal form of its path. -/
structure PlainlySpelled (route : List (Text × Value)) : Prop where
  inside : ∀ target f, Names route target f → (['.', '.'] : Text) ∉ Path.partsOf f
  exec : ∀ t f, Value.fieldD route "exec" = .text t → Key.routeFile t = some f →
    Key.Marked t ∧ (Path.ofText f).text = f

/-- A page or layout without two dots does not lead to a JSON file of the project. -/
theorem view_not_json (hp : disk.HasProject project place tree) {folder : Text} {v : Value} {g : Text}
    (hfolder : ∃ rest, folder = 'v' :: rest) (hg : IsJsonFile tree g)
    (hdots : (['.', '.'] : Text) ∉ Path.partsOf (RouteTable.viewFile folder v)) {b : Bytes} :
    disk.resolve .target (project.under (RouteTable.viewFile folder v)).text ≠
      .ok (.found (place ++ Path.partsOf g) (.file b)) := by
  intro hr
  obtain ⟨front, name, hparts, hname⟩ := Path.partsOf_ending (folder ++ v.inWords) ".ejs" (by decide) (by decide)
  have hview : Path.partsOf (RouteTable.viewFile folder v) = front ++ [name] := hparts
  have hhere : Path.anchorOf (RouteTable.viewFile folder v) = .here := by
    obtain ⟨rest, rfl⟩ := hfolder
    rfl
  have hspot := hp.spot_of_inside hhere (by rw [hview]; simp) hdots hr
  rw [List.append_cancel_left_eq] at hspot
  have hjson := hg.2
  rw [hspot, hview, List.getLast?_concat, Option.getD_some, List.isSuffixOf_iff_suffix] at hjson
  rcases List.suffix_or_suffix_of_suffix hname hjson with h | h <;> revert h <;> decide

/-- A plainly spelled route that leads to the file of an action is read as its key. -/
theorem not_strays_of_plain (hp : disk.HasProject project place tree) {route : List (Text × Value)} {a : Action}
    (hplain : PlainlySpelled route) (hfile : IsProjectFile tree a.file) (hkey : Key.ofDeclaration a.file = a.key) :
    ¬ Strays disk project route a := by
  rintro (⟨ht, hf, ⟨spot, b, hspot, haction⟩, hother⟩ | ⟨names, -, -, hup⟩)
  · rename_i t f
    obtain ⟨hmarked, htext⟩ := hplain.exec t f ht hf
    have hdots := hplain.inside _ f (.exec ht hf)
    have hhere : Path.anchorOf f = .here := by
      unfold Key.routeFile at hf
      obtain ⟨key, -, rfl⟩ := Option.map_eq_some_iff.1 hf
      rfl
    have hne : Path.partsOf f ≠ [] := by
      intro hnil
      have hdot : (Path.ofText f).text = "." := by
        unfold Path.ofText
        rw [hhere, hnil]
        rfl
      rw [htext] at hdot
      unfold Key.routeFile at hf
      obtain ⟨key, -, he⟩ := Option.map_eq_some_iff.1 hf
      rw [hdot] at he
      cases he
    have hsame := (hfile.resolve hp (by decide) haction).1.symm.trans (hp.spot_of_inside hhere hne hdots hspot)
    rw [List.append_cancel_left_eq] at hsame
    have he : f = a.file := by
      rw [← htext, hfile.text_eq, hsame]
      unfold Path.ofText
      rw [hhere]
    rw [hmarked.agrees hf htext, he, hkey] at hother
    exact hother rfl
  · exact hplain.inside _ _ names hup

/-- The routing table is not the file of an action. -/
theorem table_spared {s : Scanner} {r : ScanResult} {v : Value} (hdirs : s.config.actionDirs = .ok ["app/api", "app/lib"])
    (hp : disk.HasProject s.project place tree) (hscan : (s.scan disk).1 = .ok r)
    (hread : disk.readJson (s.project.under tablePath) = .ok v) {doomed : List Action} (hdoomed : ∀ a ∈ doomed, a ∈ r.actions) :
    Scan.Spared disk s.project (placesOf place (doomed.map (·.file))) tablePath := by
  intro spot b hr
  rw [Bool.eq_false_iff]
  intro hgone
  obtain ⟨f, hf, hspot⟩ := placesOf_iff.1 hgone
  obtain ⟨a, ha, rfl⟩ := List.mem_map.1 hf
  rw [(table_leads hp hread).2 spot b hr, List.append_cancel_left_eq] at hspot
  obtain ⟨c, hc, hfile, -⟩ := Scanner.declared_of_mem hscan hdirs (hdoomed a ha)
  obtain ⟨dir, hdir, hbegins⟩ :=
    Scan.prefix_of_mem_actionPaths hp (by decide) (by decide) (Scan.file_of_mem_declared hc).1
  rw [hfile, ← hspot] at hbegins
  revert hbegins
  revert dir
  decide

/-- A route that names a deleted file strays to an action that was safe to delete. -/
theorem strays_of_namesGone {s : Scanner} {r : ScanResult} {fields : List (Text × Value)} {routes : List Value}
    {route : List (Text × Value)} (hconfig : s.config = ScanSettings.standardConfig)
    (hp : disk.HasProject s.project place tree) (hscan : (s.scan disk).1 = .ok r)
    (hread : disk.readJson (s.project.under tablePath) = .ok (.object fields))
    (hroutes : Value.fieldD fields "routes" = .list routes) (hfits : Extract.Fits .standard (.object fields))
    (hroute : .object route ∈ routes) {doomed : List Action}
    (hdoomed : ∀ a ∈ doomed, a ∈ r.actions ∧ a.references = [])
    (h : NamesGone disk s.project (placesOf place (doomed.map (·.file))) route) :
    ∃ a ∈ doomed, Strays disk s.project route a := by
  obtain ⟨target, file, hnames, spot, b, hr, hgone⟩ := h
  obtain ⟨f, hf, rfl⟩ := placesOf_iff.1 hgone
  obtain ⟨a, ha, rfl⟩ := List.mem_map.1 hf
  obtain ⟨hjson, c, hc⟩ := Scanner.file_of_action hp hscan (by rw [hconfig]; rfl) (by decide) (hdoomed a ha).1
  have hstands := fun (e : Entry) (t : Text)
      (h : disk.resolve .target (s.project.under t).text = .ok (.found (place ++ Path.partsOf a.file) e)) =>
    Disk.resolveParts_found ((Disk.resolve_text_ok (hp.normal.under t)).1 h).2
  have hc' := Disk.resolve_entry (hp.normal.under a.file) hc
  obtain rfl : b = c := by
    have := (hstands _ file hr).symm.trans (hstands _ a.file hc')
    cases this
    rfl
  have hsame : SameFile disk s.project file a.file := ⟨_, b, hr, hc'⟩
  refine ⟨a, ha, ?_⟩
  cases hnames with
  | exec ht hf =>
    refine .exec ht hf hsame fun hkey => ?_
    exact referenced_of_route hconfig hp hscan hread hroutes hfits hroute ht (hdoomed a ha).1 hkey (hdoomed a ha).2
  | page ht =>
    refine .view (.page ht) (by decide) hsame ?_
    by_contra hdots
    exact view_not_json hp ⟨_, rfl⟩ hjson hdots hr
  | layout ht =>
    refine .view (.layout ht) (by decide) hsame ?_
    by_contra hdots
    exact view_not_json hp ⟨_, rfl⟩ hjson hdots hr

/-- After all actions that are safe to delete were deleted, the routing table can be checked again, and
every dead route was dead before with the same issues, or strays to the file of one of these actions,
which a plainly spelled route does not. -/
theorem routes_survive {s : Scanner} {r : ScanResult} {table : RouteTable} {fields : List (Text × Value)}
    {routes : List Value} {before : RouteScan} (hconfig : ScanSettings.standard.config = .ok s.config)
    (htable : ScanSettings.standard.routeTable s.project = .ok table)
    (hp : disk.HasProject s.project place tree) (hscan : (s.scan disk).1 = .ok r)
    (hread : disk.readJson table.file = .ok (.object fields))
    (hroutes : Value.fieldD fields "routes" = .list routes) (hfits : Extract.Fits .standard (.object fields))
    (hbefore : table.scan disk = .ok before) :
    ∃ report disk' after,
      Deletion.delete s.project none false ((r.withConfidence .safeToDelete).map (·.file)) disk = .ok report disk' ∧
      report.errors = [] ∧ table.scan disk' = .ok after ∧ after.total = before.total ∧ ∀ d ∈ after.dead,
        (d ∈ before.dead ∨ ∃ a ∈ r.withConfidence .safeToDelete, Strays disk s.project d.route a) ∧
        (PlainlySpelled d.route → d ∈ before.dead) := by
  obtain rfl : RouteTable.new s.project tablePath = table :=
    Except.ok.inj ((ScanSettings.standard_routeTable s.project).symm.trans htable)
  change disk.readJson (s.project.under tablePath) = .ok (.object fields) at hread
  have hconfig' : s.config = ScanSettings.standardConfig :=
    Except.ok.inj (hconfig.symm.trans ScanSettings.standard_config)
  have hdirs : s.config.actionDirs = .ok ["app/api", "app/lib"] := by rw [hconfig']; rfl
  have hdoomed : ∀ a ∈ r.withConfidence .safeToDelete, a ∈ r.actions ∧ a.references = [] := by
    intro a ha
    obtain ⟨hmem, hsafe⟩ := List.mem_filter.1 ha
    exact ⟨hmem, Action.safe_iff.1 (of_decide_eq_true hsafe)⟩
  obtain ⟨report, hdelete, herrors, -⟩ :=
    Scanner.delete_actions hp hscan hdirs (by decide) fun a ha => (hdoomed a ha).1
  have hspared := table_spared hdirs hp hscan hread fun a ha => (hdoomed a ha).1
  have hpresent : disk.present (s.project.under tablePath).text = .ok true := by
    obtain ⟨spot, b, hr⟩ := Disk.found_of_readJson hread
    unfold Disk.present Disk.test
    rw [hr]
  have hread' : (disk.withoutFiles place ((r.withConfidence .safeToDelete).map (·.file))).readJson
      (s.project.under tablePath) = .ok (.object fields) := by
    rcases Scan.readJson_without hp.wellFormed hspared with h | ⟨⟨f, hf⟩, -⟩
    · exact h.trans hread
    · cases hf.symm.trans hread
  have hroutesOf : RouteTable.routesOf fields = .list routes := by
    unfold RouteTable.routesOf
    rw [hroutes]
    cases routes <;> rfl
  obtain ⟨after, hafter, htotal, hdead⟩ := RouteTable.scan_without hp.wellFormed hpresent hread
    ((Disk.present_without hp.wellFormed _ hspared).trans hpresent) hread' hroutesOf hbefore
  refine ⟨report, _, after, hdelete, herrors, hafter, htotal, fun d hd => ?_⟩
  obtain ⟨hroute, hd⟩ := hdead d hd
  have hcases := hd.imp_right
    (strays_of_namesGone hconfig' hp hscan hread hroutes hfits hroute hdoomed)
  refine ⟨hcases, fun hplain => ?_⟩
  rcases hcases with hbefore | ⟨a, ha, hstrays⟩
  · exact hbefore
  · obtain ⟨b, hb, hfile, hk, -⟩ := Scanner.declared_of_mem hscan hdirs (hdoomed a ha).1
    refine absurd hstrays (not_strays_of_plain hp hplain
      (Scanner.file_of_action hp hscan hdirs (by decide) (hdoomed a ha).1).1.1 ?_)
    rw [← hfile, ← hk]
    exact (Scan.file_of_mem_declared hb).2.2

/-- A list of routes that are objects with texts nests no deeper than the standard limit. -/
theorem fits_of_routes {routes : List Value}
    (h : ∀ v ∈ routes, ∃ route, v = .object route ∧ ∀ f ∈ route, ∃ t, f.2 = .text t) :
    Extract.Fits .standard (.object [("routes", .list routes)]) := by
  intro n w hin
  have hn : n ≤ 2 := by
    rcases Extract.inside_cases hin with ⟨rfl, -⟩ | ⟨c, hc, m, rfl, hin⟩
    · omega
    obtain rfl : c = .list routes := List.mem_singleton.1 hc
    rcases Extract.inside_cases hin with ⟨rfl, -⟩ | ⟨c, hc, m, rfl, hin⟩
    · omega
    obtain ⟨route, rfl, htexts⟩ := h c (List.mem_filter.1 hc).1
    rcases Extract.inside_cases hin with ⟨rfl, -⟩ | ⟨c, hc, m, rfl, hin⟩
    · omega
    -- a route has no list or object inside
    obtain ⟨hmem, hcontainer⟩ := List.mem_filter.1 hc
    obtain ⟨f, hf, rfl⟩ := List.mem_map.1 hmem
    obtain ⟨t, ht⟩ := htexts f hf
    rw [ht] at hcontainer
    cases hcontainer
  unfold Extract.DepthLimit.exceeded Extract.DepthLimit.standard Extract.DepthLimit.ofInt
  simp only [decide_eq_false_iff_not]
  omega

/-- Whether a document is a routing table that a search gets through. -/
def isTable (v : Value) : Bool :=
  match v with
  | .object fields =>
    match Value.fieldD fields "routes" with
    | .list _ => (Extract.document (.object fields) .standard).isOk
    | _ => false
  | _ => false

theorem table_of_isTable {v : Value} (h : isTable v = true) : ∃ fields routes, v = .object fields ∧
    Value.fieldD fields "routes" = .list routes ∧ Extract.Fits .standard (.object fields) := by
  unfold isTable at h
  split at h
  · rename_i fields
    split at h
    · rename_i routes hroutes
      refine ⟨fields, routes, rfl, hroutes, Extract.document_runs_iff.1 ?_⟩
      cases hd : Extract.document (.object fields) .standard with
      | ok raws => exact ⟨raws, rfl⟩
      | error e => rw [hd] at h; cases h
    · cases h
  · cases h

/-- A route whose action never existed is dead before and after the deletion of an action. -/
theorem sample_routes_survive :
    ∃ table before report disk' after,
      ScanSettings.standard.routeTable Sample.project = .ok table ∧
      table.scan (Sample.routedDisk Sample.oneAction (Sample.oneRoute "/api/z")) = .ok before ∧
      before.dead.length = 1 ∧
      Deletion.delete Sample.project none false ["app/api/a.json"]
        (Sample.routedDisk Sample.oneAction (Sample.oneRoute "/api/z")) = .ok report disk' ∧
      report.errors = [] ∧ table.scan disk' = .ok after ∧ after.total = 1 ∧
      ∀ d ∈ after.dead, PlainlySpelled d.route → d ∈ before.dead := by
  have hp : (Sample.routedDisk Sample.oneAction (Sample.oneRoute "/api/z")).HasProject Sample.project ["p"] _ :=
    ⟨by decide +kernel, by decide, rfl, by decide⟩
  have hrun : ∃ r, (Sample.scanner.scan (Sample.routedDisk Sample.oneAction (Sample.oneRoute "/api/z"))).1 = .ok r ∧
      (r.withConfidence .safeToDelete).map (·.file) = ["app/api/a.json"] := Outcome.ok_of_check (by decide +kernel)
  have hread : ∃ v, (Sample.routedDisk Sample.oneAction (Sample.oneRoute "/api/z")).readJson
      (Sample.project.under tablePath) = .ok v ∧ isTable v = true := Outcome.ok_of_check (by decide +kernel)
  have hbefore : ∃ before, (RouteTable.new Sample.project tablePath).scan
      (Sample.routedDisk Sample.oneAction (Sample.oneRoute "/api/z")) = .ok before ∧
      before.total = 1 ∧ before.dead.length = 1 := Outcome.ok_of_check (by decide +kernel)
  obtain ⟨r, hr, hsafe⟩ := hrun
  obtain ⟨v, hv, htable⟩ := hread
  obtain ⟨fields, routes, rfl, hroutes, hfits⟩ := table_of_isTable htable
  obtain ⟨before, hbefore, htotal, hdead⟩ := hbefore
  obtain ⟨report, disk', after, hdelete, herrors, hafter, hsame, hkept⟩ :=
    routes_survive (s := Sample.scanner) ScanSettings.standard_config rfl hp hr hv hroutes hfits hbefore
  rw [hsafe] at hdelete
  exact ⟨_, before, report, disk', after, rfl, hbefore, hdead, hdelete, herrors, hafter, hsame.trans htotal,
    fun d hd => (hkept d hd).2⟩

/-- A route whose exec is relative to the folder of the application lives as long as its action, but the
index reads the exec as a library name: the action is safe to delete, and the route dead without it. -/
theorem relative_exec_strays :
    (∃ place tree, (Sample.routedDisk Sample.oneAction (Sample.oneRoute "api/a")).HasProject
      Sample.project place tree) ∧
    (∃ v, (Sample.routedDisk Sample.oneAction (Sample.oneRoute "api/a")).readJson
      (Sample.project.under tablePath) = .ok v ∧ isTable v = true) ∧
    ∃ r table before report disk' after, ScanSettings.standard.config = .ok Sample.scanner.config ∧
      ScanSettings.standard.routeTable Sample.project = .ok table ∧
      (Sample.scanner.scan (Sample.routedDisk Sample.oneAction (Sample.oneRoute "api/a"))).1 = .ok r ∧
      (r.withConfidence .safeToDelete).map (·.file) = ["app/api/a.json"] ∧
      table.scan (Sample.routedDisk Sample.oneAction (Sample.oneRoute "api/a")) = .ok before ∧
      before.dead.length = 0 ∧
      Deletion.delete Sample.project none false ["app/api/a.json"]
        (Sample.routedDisk Sample.oneAction (Sample.oneRoute "api/a")) = .ok report disk' ∧
      table.scan disk' = .ok after ∧ after.dead.length = 1 := by
  have hrun : ∃ r, (Sample.scanner.scan (Sample.routedDisk Sample.oneAction (Sample.oneRoute "api/a"))).1 = .ok r ∧
      (r.withConfidence .safeToDelete).map (·.file) = ["app/api/a.json"] := Outcome.ok_of_check (by decide +kernel)
  have hbefore : ∃ before, (RouteTable.new Sample.project tablePath).scan
      (Sample.routedDisk Sample.oneAction (Sample.oneRoute "api/a")) = .ok before ∧
      before.dead.length = 0 := Outcome.ok_of_check (by decide +kernel)
  have hdelete : ∃ report disk', Deletion.delete Sample.project none false ["app/api/a.json"]
      (Sample.routedDisk Sample.oneAction (Sample.oneRoute "api/a")) = .ok report disk' ∧
      disk' = Sample.routedDisk .empty (Sample.oneRoute "api/a") := Outcome.done_of_check (by decide +kernel)
  have hafter : ∃ after, (RouteTable.new Sample.project tablePath).scan
      (Sample.routedDisk .empty (Sample.oneRoute "api/a")) = .ok after ∧
      after.dead.length = 1 := Outcome.ok_of_check (by decide +kernel)
  obtain ⟨r, hr, hsafe⟩ := hrun
  obtain ⟨before, hbefore, halive⟩ := hbefore
  obtain ⟨report, _, hdelete, rfl⟩ := hdelete
  obtain ⟨after, hafter, hdead⟩ := hafter
  exact ⟨⟨["p"], _, by decide +kernel, by decide, rfl, by decide⟩, Outcome.ok_of_check (by decide +kernel),
    r, _, before, report, _, after, ScanSettings.standard_config, rfl, hr, hsafe, hbefore, halive, hdelete,
    hafter, hdead⟩

end ActionSweep
