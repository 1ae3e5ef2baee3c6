/-
What a check of the routing table finds. On a file tree without links the dead routes are exactly the routes with a text that
stands for a file that does not exist, in the order of the table, and every other entry counts as valid. There is such an
answer unless one of those files cannot be asked about, since its path or a name in it is too long. When files are added to
a tree, whatever is found missing at a route was missing before.
-/
import ActionSweep.Proofs.Files.Asking
import ActionSweep.Proofs.Routes.Exact

namespace ActionSweep

namespace RouteTable

open Outcome (bind_ok)

variable {table : RouteTable} {disk : Disk} {route : List (Text × Value)} {target : RouteTarget} {file : Text}
  {found : List RouteIssue} {i : RouteIssue}

/-! ## The files of a route -/

/-- The files that the texts of a route stand for: the view of its page, the declaration of its action, if its exec has a
key, and the view of its layout. -/
inductive PointsTo (route : List (Text × Value)) : RouteTarget → Text → Prop
  | page {t : Text} (h : Value.fieldD route "page" = .text t) (hne : t ≠ []) : PointsTo route .page ("views/" ++ t ++ ".ejs")
  | exec {t key : Text} (h : Value.fieldD route "exec" = .text t) (hkey : Key.ofReference .route t = some key) :
    PointsTo route .exec ("app/" ++ key.dropWhile (· = '/') ++ ".json")
  | layout {t : Text} (h : Value.fieldD route "layout" = .text t) (hne : t ≠ []) :
    PointsTo route .layout ("views/layouts/" ++ t ++ ".ejs")

/-- A route whose page, exec and layout are texts or absent. -/
structure TextFields (route : List (Text × Value)) : Prop where
  page : TextField route "page"
  exec : TextField route "exec"
  layout : TextField route "layout"

theorem TextField.text_of_truthy {name : Text} (h : TextField route name) (htrue : (Value.fieldD route name).truthy = true) :
    ∃ t, Value.fieldD route name = .text t ∧ t ≠ [] := by
  rcases h with h | ⟨t, h⟩
  · rw [h] at htrue
    cases htrue
  · rw [h] at htrue
    exact ⟨t, h, by rintro rfl; cases htrue⟩

theorem truthy_of_text {v : Value} {t : Text} (h : v = .text t) (hne : t ≠ []) : v.truthy = true := by
  rw [h, Value.truthy, Bool.not_eq_true', List.isEmpty_eq_false_iff]
  exact hne

theorem viewFile_text {folder t : Text} {v : Value} (h : v = .text t) : viewFile folder v = folder ++ t ++ ".ejs" := by
  rw [h]
  rfl

theorem names_iff (h : TextFields route) : Names route target file ↔ PointsTo route target file := by
  constructor
  · rintro (htrue | ⟨ht, hf⟩ | htrue)
    · obtain ⟨t, ht, hne⟩ := h.page.text_of_truthy htrue
      exact viewFile_text ht ▸ .page ht hne
    · obtain ⟨key, hkey, rfl⟩ := Option.map_eq_some_iff.1 hf
      exact .exec ht hkey
    · obtain ⟨t, ht, hne⟩ := h.layout.text_of_truthy htrue
      exact viewFile_text ht ▸ .layout ht hne
  · rintro (⟨ht, hne⟩ | ⟨ht, hkey⟩ | ⟨ht, hne⟩)
    · exact viewFile_text ht ▸ .page (truthy_of_text ht hne)
    · exact .exec ht (Option.map_eq_some_iff.2 ⟨_, hkey, rfl⟩)
    · exact viewFile_text ht ▸ .layout (truthy_of_text ht hne)

/-! ## What is found at a route -/

theorem mem_missing (h : table.missing disk target file = .ok found) :
    i ∈ found ↔ i = ⟨target, file⟩ ∧ disk.present (table.project.under file).text = .ok false := by
  unfold missing at h
  obtain ⟨b, hb, h⟩ := bind_ok.1 h
  rw [hb]
  cases b with
  | true => cases h; simp
  | false => cases h; simp

theorem mem_viewIssues {folder : Text} {v : Value} (h : table.viewIssues disk target folder v = .ok found) :
    i ∈ found ↔ v.truthy = true ∧ i = ⟨target, viewFile folder v⟩ ∧
      disk.present (table.project.under (viewFile folder v)).text = .ok false := by
  unfold viewIssues at h
  split at h
  · rename_i htrue
    rw [mem_missing h, and_iff_right htrue]
  · rename_i hfalse
    cases h
    simp [hfalse]

theorem mem_execIssues {v : Value} (h : table.execIssues disk v = .ok found) :
    i ∈ found ↔ ∃ t file, v = .text t ∧ Key.routeFile t = some file ∧ i = ⟨.exec, file⟩ ∧
      disk.present (table.project.under file).text = .ok false := by
  unfold execIssues at h
  split at h
  · obtain ⟨file?, hfile, hfound⟩ := bind_ok.1 h
    cases file? with
    | none =>
      cases hfound
      refine iff_of_false List.not_mem_nil ?_
      rintro ⟨t, file, rfl, hf, -⟩
      cases (Except.ok.inj hfile).symm.trans hf
    | some file =>
      obtain ⟨t, rfl, hf⟩ := execFile_eq_some hfile
      rw [mem_missing hfound]
      constructor
      · exact fun hi => ⟨t, file, rfl, hf, hi⟩
      · rintro ⟨_, _, ⟨⟩, hf', hi⟩
        obtain rfl := Option.some.inj (hf.symm.trans hf')
        exact hi
  · rename_i hfalse
    cases h
    refine iff_of_false List.not_mem_nil ?_
    rintro ⟨t, file, rfl, hf, -⟩
    obtain rfl : t = [] := by
      by_contra hne
      exact hfalse (truthy_of_text rfl hne)
    cases routeFile_nil.symm.trans hf

/-- What is found at a route are the files that it names and that are not there. -/
theorem mem_issues (h : table.issues disk route = .ok found) :
    i ∈ found ↔ Names route i.target i.expectedPath ∧ disk.present (table.project.under i.expectedPath).text = .ok false := by
  obtain ⟨a, b, c, ha, hb, hc, rfl⟩ := issues_ok.1 h
  rw [List.mem_append, List.mem_append, mem_viewIssues ha, mem_execIssues hb, mem_viewIssues hc]
  constructor
  · rintro ((⟨htrue, rfl, hno⟩ | ⟨t, file, ht, hf, rfl, hno⟩) | ⟨htrue, rfl, hno⟩)
    · exact ⟨.page htrue, hno⟩
    · exact ⟨.exec ht hf, hno⟩
    · exact ⟨.layout htrue, hno⟩
  · obtain ⟨target, file⟩ := i
    rintro ⟨htrue | ⟨ht, hf⟩ | htrue, hno⟩
    · exact .inl (.inl ⟨htrue, rfl, hno⟩)
    · exact .inl (.inr ⟨_, _, ht, hf, rfl, hno⟩)
    · exact .inr ⟨htrue, rfl, hno⟩

/-- On a tree without links those are the files of the route that do not exist. -/
theorem mem_issues_plain (hdisk : disk.Plain) (hproject : table.project.Normal) (htext : TextFields route)
    (h : table.issues disk route = .ok found) :
    i ∈ found ↔ PointsTo route i.target i.expectedPath ∧ ¬ disk.Stands (table.project.under i.expectedPath) := by
  rw [mem_issues h, names_iff htext]
  refine and_congr_right fun hpoints => ?_
  obtain ⟨b, hb⟩ := (issues_runs_iff_text.1 ⟨found, h⟩).2 _ _ ((names_iff htext).2 hpoints)
  rw [hb, ← hdisk.present_iff (hproject.under i.expectedPath) hb, Bool.not_eq_true, Except.ok.injEq]

/-! ## What is found in a table -/

/-- An entry of the table that is a route with a file that does not exist. -/
def Dead (table : RouteTable) (disk : Disk) : Value → Prop
  | .object route => ∃ target file, PointsTo route target file ∧ ¬ disk.Stands (table.project.under file)
  | _ => False

theorem not_live_iff (hdisk : disk.Plain) (hproject : table.project.Normal) {v : Value}
    (htext : ∀ route, v = .object route → TextFields route) {d : Option DeadRoute} (h : table.dead? disk v = .ok d) :
    table.isLive disk v = false ↔ table.Dead disk v := by
  rw [isLive_eq h]
  cases v with
  | object route =>
    obtain ⟨found, hfound, -⟩ := bind_ok.1 h
    obtain rfl := Except.ok.inj ((dead?_object hfound).symm.trans h)
    have hmem (i : RouteIssue) := @mem_issues_plain _ _ _ _ i hdisk hproject (htext route rfl) hfound
    cases found with
    | nil => exact iff_of_false nofun fun ⟨target, file, hdead⟩ => List.not_mem_nil ((hmem ⟨target, file⟩).2 hdead)
    | cons i found => exact iff_of_true rfl ⟨i.target, i.expectedPath, (hmem i).1 (List.mem_cons_self ..)⟩
  | _ =>
    cases h
    exact iff_of_false nofun id

theorem dead?_issues {d : DeadRoute} (h : table.dead? disk (.object d.route) = .ok (some d)) :
    table.issues disk d.route = .ok d.issues := by
  obtain ⟨found, hfound, -⟩ := bind_ok.1 h
  have hsome := Except.ok.inj ((dead?_object hfound).symm.trans h)
  split at hsome
  · cases hsome
  · rw [hfound, ← Option.some.inj hsome]

/-! ## Added files -/

section Grown

variable {root' : Dir} (hkept : ∀ path e, disk.root.find? path = some e → root'.StillHas path e) {found' : List RouteIssue}

include hkept

theorem missing_grown (h : table.missing (disk.setRoot root') target file = .ok found') :
    ∃ found, table.missing disk target file = .ok found ∧ found'.Sublist found := by
  unfold missing at h ⊢
  obtain ⟨b', hb', h⟩ := bind_ok.1 h
  obtain ⟨b, hb, hstays⟩ := Disk.present_grown hkept hb'
  rw [hb]
  cases b' with
  | true =>
    cases h
    cases b with
    | true => exact ⟨[], rfl, .slnil⟩
    | false => exact ⟨[⟨target, file⟩], rfl, List.nil_sublist _⟩
  | false =>
    cases h
    cases b with
    | true => cases hstays rfl
    | false => exact ⟨[⟨target, file⟩], rfl, .refl _⟩

theorem viewIssues_grown {folder : Text} {v : Value} (h : table.viewIssues (disk.setRoot root') target folder v = .ok found') :
    ∃ found, table.viewIssues disk target folder v = .ok found ∧ found'.Sublist found := by
  unfold viewIssues at h ⊢
  split at h
  · rename_i htrue
    rw [if_pos htrue]
    exact missing_grown hkept h
  · rename_i hfalse
    cases h
    exact ⟨[], if_neg hfalse, .slnil⟩

theorem execIssues_grown {v : Value} (h : table.execIssues (disk.setRoot root') v = .ok found') :
    ∃ found, table.execIssues disk v = .ok found ∧ found'.Sublist found := by
  unfold execIssues at h ⊢
  split at h
  · rename_i htrue
    rw [if_pos htrue]
    obtain ⟨file?, hfile, h⟩ := bind_ok.1 h
    rw [hfile]
    cases file? with
    | none =>
      cases h
      exact ⟨[], rfl, .slnil⟩
    | some file => exact missing_grown hkept h
  · rename_i hfalse
    cases h
    exact ⟨[], if_neg hfalse, .slnil⟩

/-- What is found at a route in a tree with more entries was found before. -/
theorem issues_grown (h : table.issues (disk.setRoot root') route = .ok found') :
    ∃ found, table.issues disk route = .ok found ∧ found'.Sublist found := by
  obtain ⟨a', b', c', ha', hb', hc', rfl⟩ := issues_ok.1 h
  obtain ⟨a, ha, hsuba⟩ := viewIssues_grown hkept ha'
  obtain ⟨b, hb, hsubb⟩ := execIssues_grown hkept hb'
  obtain ⟨c, hc, hsubc⟩ := viewIssues_grown hkept hc'
  exact ⟨_, issues_ok.2 ⟨a, b, c, ha, hb, hc, rfl⟩, (hsuba.append hsubb).append hsubc⟩

end Grown

/-! ## The whole check -/

open Classical in
/-- A check of a tree without links, and of a table whose routes have texts: there is an answer exactly if every file that a
route stands for can be asked about. The dead routes are the routes with a file that does not exist, and their issues are
those files; all other entries are valid. Added files add no issue to any route. -/
theorem scan_exact (hdisk : disk.Plain) (hproject : table.project.Normal) {fields : List (Text × Value)} {routes : List Value}
    (hread : disk.readJson table.file = .ok (.object fields)) (hroutes : routesOf fields = .list routes)
    (htext : ∀ route, .object route ∈ routes → TextFields route) :
    ((∃ s, table.scan disk = .ok s) ↔ ∀ route target file, .object route ∈ routes → PointsTo route target file →
      '\x00' ∈ (table.project.under file).text ∨ disk.CanAsk (table.project.under file)) ∧
    (∀ s, table.scan disk = .ok s → s.found = true ∧ s.total = routes.length ∧
      s.dead.map (fun d => .object d.route) = routes.filter (table.Dead disk ·) ∧
      (∀ d ∈ s.dead, ∀ i, i ∈ d.issues ↔
        PointsTo d.route i.target i.expectedPath ∧ ¬ disk.Stands (table.project.under i.expectedPath)) ∧
      s.valid = (routes.filter (¬ table.Dead disk ·)).length) ∧
    ∀ added root', disk.root.addFiles? added = some root' → ∀ route found', table.issues (disk.setRoot root') route = .ok found' →
      ∃ found, table.issues disk route = .ok found ∧ found'.Sublist found := by
  have hscan (s : RouteScan) := @scan_ok table disk s fields routes (Disk.present_of_readJson hread) hread hroutes
  refine ⟨⟨fun ⟨s, hs⟩ route target file hmem hpoints => ?_, fun hask => ?_⟩, fun s hs => ?_, fun added root' hadded route found' =>
    issues_grown fun path e he => Dir.stillHas_addFiles? hadded he⟩
  · obtain ⟨dead, hdead, -⟩ := (hscan s).1 hs
    obtain ⟨d, -, hd⟩ := forall₂_mem_left hdead hmem
    obtain ⟨found, hfound, -⟩ := bind_ok.1 hd
    exact (hdisk.present_runs_iff (hproject.under file)).1
      ((issues_runs_iff_text.1 ⟨found, hfound⟩).2 target file ((names_iff (htext route hmem)).2 hpoints))
  · obtain ⟨dead, hdead⟩ := Outcome.mapM_runs (f := table.dead? disk) (l := routes) fun v hv => by
      cases v with
      | object route =>
        have hfields := htext route hv
        obtain ⟨found, hfound⟩ := (issues_runs_iff hfields.exec).2 fun target file hnames =>
          (hdisk.present_runs_iff (hproject.under file)).2 (hask route target file hv ((names_iff hfields).1 hnames))
        exact ⟨_, dead?_object hfound⟩
      | _ => exact ⟨none, rfl⟩
    exact ⟨_, (hscan _).2 ⟨dead, Outcome.mapM_ok.1 hdead, rfl⟩⟩
  · obtain ⟨dead, hdead, rfl⟩ := (hscan s).1 hs
    have hlive : ∀ v ∈ routes, table.isLive disk v = decide (¬ table.Dead disk v) := by
      intro v hv
      obtain ⟨d, -, hd⟩ := forall₂_mem_left hdead hv
      rw [Bool.eq_iff_iff, decide_eq_true_iff, ← not_live_iff hdisk hproject (fun route he => htext route (he ▸ hv)) hd,
        Bool.not_eq_false]
    have hfilter : routes.filter (fun v => !table.isLive disk v) = routes.filter (table.Dead disk ·) :=
      List.filter_congr fun v hv => by rw [hlive v hv, decide_not, Bool.not_not]
    refine ⟨rfl, rfl, (dead_routes hdead).trans hfilter, fun d hd i => ?_, ?_⟩
    · obtain ⟨v, hv, hd'⟩ := (mem_dead hdead).1 hd
      obtain rfl := dead?_route hd'
      exact mem_issues_plain hdisk hproject (htext d.route hv) (dead?_issues hd')
    · have hlength := List.length_eq_length_filter_add (l := routes) (table.isLive disk)
      rw [List.filter_congr hlive, ← dead_routes hdead, List.length_map] at hlength
      show (routes.length : Int) - ((dead.filterMap id).length : Int) = _
      omega

end RouteTable

namespace Sample

open Json (Readable)

/-- A table with a route to a page, and an entry that is no route. -/
def pageFields (page : Text) : List (Text × Value) := [("routes", .list [.object [("page", .text page)], .int 1])]

theorem readable_pageFields (page : Text) : Readable Surroundings.standardNesting (.object (pageFields page)) := by
  have hone : (Text.ofNat (1 : Int).natAbs).length ≤ numeralLimit := by decide
  have hroute : Readable (Surroundings.standardNesting - 2) (.object [("page", .text page)]) := ⟨by decide, List.nodup_singleton _, trivial, trivial⟩
  exact ⟨by decide, List.nodup_singleton _, ⟨by decide, hroute, hone, trivial⟩, trivial⟩

theorem textFields_page (page : Text) : RouteTable.TextFields [("page", .text page)] := ⟨.inr ⟨page, rfl⟩, .inl rfl, .inl rfl⟩

/-- A project with that table, and no views. -/
def pageDisk (page : Text) : Disk := settingsDisk (file "routes.json" (RouteTable.fileText (pageFields page)) .empty)

theorem plain_pageDisk (page : Text) (hfree : (pageDisk page).root.WellFormed ∧ (pageDisk page).root.LinkFree) :
    (pageDisk page).Plain := ⟨hfree.1, hfree.2.unlinked, ⟨_, rfl⟩⟩

theorem readJson_pageDisk (page : Text) (hresolve : (pageDisk page).resolve .target table.file.text =
    .ok (.found ["p", "app", "config", "routes.json"] (.file (Utf8.encode (RouteTable.fileText (pageFields page)))))) :
    (pageDisk page).readJson table.file = .ok (.object (pageFields page)) :=
  RouteTable.readJson_fileText (readable_pageFields page) (Disk.read_ok.2 ⟨_, hresolve⟩)

/-- A page whose file has a name that is too long. -/
def longPage : Text := List.replicate 252 'a'

end Sample

namespace RouteTable

theorem pageRoutes_text (page : Text) : ∀ route, .object route ∈ [Value.object [("page", .text page)], .int 1] →
    TextFields route := by
  rintro _ (_ | ⟨_, _ | ⟨_, ⟨⟩⟩⟩)
  exact Sample.textFields_page page

open Classical in
/-- A route to a page that does not exist is dead, and the entry beside it is valid. -/
theorem sample_scan_exact : ∃ s, Sample.table.scan (Sample.pageDisk "x") = .ok s ∧ s.total = 2 ∧ s.valid = 1 ∧
    s.dead.map (fun d => Value.object d.route) = [.object [("page", .text "x")]] ∧
    ∃ root', (Sample.pageDisk "x").root.addFiles? [(["p", "views", "x.ejs"], [])] = some root' ∧
      ∀ found', Sample.table.issues ((Sample.pageDisk "x").setRoot root') [("page", .text "x")] = .ok found' →
        ∃ found, Sample.table.issues (Sample.pageDisk "x") [("page", .text "x")] = .ok found ∧ found'.Sublist found := by
  obtain ⟨hruns, hfinds, hgrows⟩ := scan_exact (Sample.plain_pageDisk "x" (by decide +kernel)) (by decide)
    (Sample.readJson_pageDisk "x" (by decide +kernel)) rfl (pageRoutes_text "x")
  have hask : ∀ route target file, .object route ∈ [Value.object [("page", .text "x")], .int 1] → PointsTo route target file →
      '\x00' ∈ (Sample.table.project.under file).text ∨ (Sample.pageDisk "x").CanAsk (Sample.table.project.under file) := by
    rintro _ _ _ (_ | ⟨_, _ | ⟨_, ⟨⟩⟩⟩) (⟨⟨⟩, -⟩ | ⟨⟨⟩, -⟩ | ⟨⟨⟩, -⟩)
    exact .inr (Disk.canAsk_of_short (by decide) (by decide))
  obtain ⟨s, hs⟩ := hruns.2 hask
  obtain ⟨-, htotal, hdead, -, hvalid⟩ := hfinds s hs
  have hgone : Sample.table.Dead (Sample.pageDisk "x") (.object [("page", .text "x")]) := by
    refine ⟨_, _, .page rfl (by decide), fun ⟨_, hthere⟩ => ?_⟩
    revert hthere
    decide +kernel
  have hvalue : ¬ Sample.table.Dead (Sample.pageDisk "x") (.int 1) := id
  have hfirst {P : Value → Prop} {v w : Value} (hv : P v) (hw : ¬ P w) :
      [v, w].filter (P ·) = [v] ∧ [v, w].filter (¬ P ·) = [w] := by simp [hv, hw]
  obtain ⟨root', hadded⟩ : ∃ root', (Sample.pageDisk "x").root.addFiles? [(["p", "views", "x.ejs"], [])] = some root' :=
    ⟨_, rfl⟩
  refine ⟨s, hs, htotal, ?_, hdead.trans (hfirst hgone hvalue).1, root', hadded, fun found' => hgrows _ root' hadded _ found'⟩
  rw [hvalid, (hfirst hgone hvalue).2]
  rfl

/-- A page whose file has a name that is too long ends the check of the whole table, though it does not exist. -/
theorem long_page_not_checked : (Sample.pageDisk Sample.longPage).Plain ∧
    (Sample.pageDisk Sample.longPage).readJson Sample.table.file = .ok (.object (Sample.pageFields Sample.longPage)) ∧
    (∀ route, .object route ∈ [Value.object [("page", .text Sample.longPage)], .int 1] → TextFields route) ∧
    ¬ (Sample.pageDisk Sample.longPage).Stands (Sample.table.project.under ("views/" ++ Sample.longPage ++ ".ejs")) ∧
    ∃ f, Sample.table.scan (Sample.pageDisk Sample.longPage) = .error f ∧ f.isOwn = false := by
  refine ⟨Sample.plain_pageDisk _ (by decide +kernel), Sample.readJson_pageDisk _ (by decide +kernel), pageRoutes_text _, ?_,
    Outcome.error_of_check (by decide +kernel)⟩
  rintro ⟨-, hthere⟩
  revert hthere
  decide +kernel

end RouteTable

end ActionSweep
