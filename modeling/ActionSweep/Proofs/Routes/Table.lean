/-
Checks of the routing table before and after files were removed: a check asks for the files that a
route names, one by one, so it ends well afterwards if it did before, and its answer is the same unless
a route names a removed file.
-/
import ActionSweep.Routes
import ActionSweep.Proofs.Files.Removal
import ActionSweep.Proofs.Lists

namespace ActionSweep

namespace RouteTable

open Outcome (bind_ok mapM_ok map_ok)

/-- The files that a route names. -/
inductive Names (route : List (Text × Value)) : RouteTarget → Text → Prop
  | page (h : (Value.fieldD route "page").truthy = true) :
    Names route .page (viewFile "views/" (Value.fieldD route "page"))
  | exec {t f : Text} (h : Value.fieldD route "exec" = .text t) (hf : Key.routeFile t = some f) : Names route .exec f
  | layout (h : (Value.fieldD route "layout").truthy = true) :
    Names route .layout (viewFile "views/layouts/" (Value.fieldD route "layout"))

variable {table : RouteTable} {disk : Disk}

/-! ## The checks of one route -/

/-- The check of a page or layout. -/
def viewIssues (table : RouteTable) (disk : Disk) (target : RouteTarget) (folder : Text) (v : Value) :
    Except Fault (List RouteIssue) :=
  if v.truthy then table.missing disk target (viewFile folder v) else .ok []

/-- The check of an exec entry. -/
def execIssues (table : RouteTable) (disk : Disk) (v : Value) : Except Fault (List RouteIssue) :=
  if v.truthy then do
    match ← execFile v with
    | some file => table.missing disk .exec file
    | none => .ok []
  else .ok []

theorem issues_eq (table : RouteTable) (disk : Disk) (route : List (Text × Value)) :
    table.issues disk route = (do
      let a ← table.viewIssues disk .page "views/" (Value.fieldD route "page")
      let b ← table.execIssues disk (Value.fieldD route "exec")
      let c ← table.viewIssues disk .layout "views/layouts/" (Value.fieldD route "layout")
      return a ++ b ++ c) := by
  unfold issues viewIssues execIssues
  dsimp only
  generalize (Value.fieldD route "page").truthy = p, (Value.fieldD route "exec").truthy = e,
    (Value.fieldD route "layout").truthy = l, execFile (Value.fieldD route "exec") = file
  rcases file with f | _ | file <;> cases p <;> cases e <;> cases l <;>
    simp [bind, Except.bind, pure, Except.pure]

theorem issues_ok {route : List (Text × Value)} {found : List RouteIssue} :
    table.issues disk route = .ok found ↔ ∃ a b c,
      table.viewIssues disk .page "views/" (Value.fieldD route "page") = .ok a ∧
      table.execIssues disk (Value.fieldD route "exec") = .ok b ∧
      table.viewIssues disk .layout "views/layouts/" (Value.fieldD route "layout") = .ok c ∧ found = a ++ b ++ c := by
  rw [issues_eq]
  simp only [bind_ok]
  constructor
  · rintro ⟨a, ha, b, hb, c, hc, h⟩
    cases h
    exact ⟨a, b, c, ha, hb, hc, rfl⟩
  · rintro ⟨a, b, c, ha, hb, hc, rfl⟩
    exact ⟨a, ha, b, hb, c, hc, rfl⟩

/-- A field that holds a text, or is absent. -/
def TextField (route : List (Text × Value)) (name : Text) : Prop :=
  Value.fieldD route name = .null ∨ ∃ t, Value.fieldD route name = .text t

instance (route : List (Text × Value)) (name : Text) : Decidable (TextField route name) :=
  match h : Value.fieldD route name with
  | .null => .isTrue (.inl h)
  | .text t => .isTrue (.inr ⟨t, h⟩)
  | .bool _ | .int _ | .float _ | .list _ | .object _ | .other _ _ _ _ =>
    .isFalse (by rintro (h' | ⟨t, h'⟩) <;> rw [h] at h' <;> cases h')

/-- Every file that a route names can be asked about. -/
def Asks (table : RouteTable) (disk : Disk) (route : List (Text × Value)) : Prop :=
  ∀ target file, Names route target file → ∃ b, disk.present (table.project.under file).text = .ok b

theorem missing_runs_iff {target : RouteTarget} {file : Text} :
    (∃ found, table.missing disk target file = .ok found) ↔
      ∃ b, disk.present (table.project.under file).text = .ok b := by
  unfold missing
  constructor
  · rintro ⟨found, h⟩
    obtain ⟨b, hb, -⟩ := bind_ok.1 h
    exact ⟨b, hb⟩
  · rintro ⟨b, hb⟩
    rw [hb]
    cases b with
    | true => exact ⟨[], rfl⟩
    | false => exact ⟨[⟨target, file⟩], rfl⟩

theorem viewIssues_runs_iff {target : RouteTarget} {folder : Text} {v : Value} :
    (∃ found, table.viewIssues disk target folder v = .ok found) ↔
      (v.truthy = true → ∃ b, disk.present (table.project.under (viewFile folder v)).text = .ok b) := by
  unfold viewIssues
  split
  · rename_i hv
    rw [missing_runs_iff]
    exact ⟨fun h _ => h, fun h => h hv⟩
  · rename_i hv
    exact ⟨fun _ h => absurd h hv, fun _ => ⟨[], rfl⟩⟩

theorem routeFile_nil : Key.routeFile [] = none := by decide

theorem execIssues_runs_iff {t : Text} :
    (∃ found, table.execIssues disk (.text t) = .ok found) ↔
      ∀ file, Key.routeFile t = some file → ∃ b, disk.present (table.project.under file).text = .ok b := by
  have hfile : execFile (.text t) = .ok (Key.routeFile t) := rfl
  unfold execIssues
  split
  · rw [hfile]
    cases Key.routeFile t with
    | none => exact ⟨fun _ _ h => (by cases h), fun _ => ⟨[], rfl⟩⟩
    | some file =>
      show (∃ found, table.missing disk .exec file = .ok found) ↔ _
      rw [missing_runs_iff]
      exact ⟨fun h f hf => (by cases hf; exact h), fun h => h file rfl⟩
  · rename_i ht
    obtain rfl : t = [] := by
      cases t with
      | nil => rfl
      | cons c t => exact absurd rfl ht
    rw [routeFile_nil]
    exact ⟨fun _ _ h => (by cases h), fun _ => ⟨[], rfl⟩⟩

theorem execIssues_other {v : Value} (hv : ∀ t, v ≠ .text t) (h : v.truthy = true) :
    table.execIssues disk v = .error (.misuse (.noAttribute v.kind "strip")) := by
  unfold execIssues
  rw [if_pos h]
  cases v with
  | text t => exact absurd rfl (hv t)
  | _ => rfl

/-- A route can be checked exactly if its exec is a text or counts as false, and every file that it names can be asked
about. -/
theorem issues_runs_iff_text {route : List (Text × Value)} : (∃ found, table.issues disk route = .ok found) ↔
    ((Value.fieldD route "exec").truthy = true → ∃ t, Value.fieldD route "exec" = .text t) ∧ Asks table disk route := by
  have hexec : (∃ found, table.execIssues disk (Value.fieldD route "exec") = .ok found) ↔
      ((Value.fieldD route "exec").truthy = true → ∃ t, Value.fieldD route "exec" = .text t) ∧
      ∀ t file, Value.fieldD route "exec" = .text t → Key.routeFile t = some file →
        ∃ b, disk.present (table.project.under file).text = .ok b := by
    generalize Value.fieldD route "exec" = v
    by_cases htext : ∃ t, v = .text t
    · obtain ⟨t, rfl⟩ := htext
      rw [execIssues_runs_iff]
      exact ⟨fun hasks => ⟨fun _ => ⟨t, rfl⟩, fun u file hu => (by cases hu; exact hasks file)⟩, fun h file => h.2 t file rfl⟩
    · by_cases htrue : v.truthy = true
      · rw [execIssues_other (fun t ht => htext ⟨t, ht⟩) htrue]
        exact iff_of_false nofun fun h => htext (h.1 htrue)
      · refine iff_of_true ⟨[], if_neg htrue⟩ ⟨fun h => absurd h htrue, fun t _ ht => absurd ⟨t, ht⟩ htext⟩
  constructor
  · rintro ⟨found, h⟩
    obtain ⟨a, b, c, ha, hb, hc, -⟩ := issues_ok.1 h
    refine ⟨(hexec.1 ⟨b, hb⟩).1, fun target file hnames => ?_⟩
    cases hnames with
    | page hv => exact viewIssues_runs_iff.1 ⟨a, ha⟩ hv
    | exec ht hf => exact (hexec.1 ⟨b, hb⟩).2 _ _ ht hf
    | layout hv => exact viewIssues_runs_iff.1 ⟨c, hc⟩ hv
  · rintro ⟨htext, hasks⟩
    obtain ⟨a, ha⟩ := viewIssues_runs_iff.2 fun h => hasks .page _ (.page h)
    obtain ⟨b, hb⟩ := hexec.2 ⟨htext, fun t file ht hf => hasks .exec file (.exec ht hf)⟩
    obtain ⟨c, hc⟩ := viewIssues_runs_iff.2 fun h => hasks .layout _ (.layout h)
    exact ⟨_, issues_ok.2 ⟨a, b, c, ha, hb, hc, rfl⟩⟩

/-- A route whose exec is a text or absent can be checked exactly if every file that it names can be asked about. -/
theorem issues_runs_iff {route : List (Text × Value)} (hexec : TextField route "exec") :
    (∃ found, table.issues disk route = .ok found) ↔ Asks table disk route := by
  refine issues_runs_iff_text.trans (and_iff_right fun htrue => ?_)
  rcases hexec with h | h
  · rw [h] at htrue
    cases htrue
  · exact h

/-! ## After files were removed -/

/-- A name below the project that leads to a removed file. -/
def LeadsToGone (disk : Disk) (project : Path) (gone : List Text → Bool) (file : Text) : Prop :=
  ∃ spot b, disk.resolve .target (project.under file).text = .ok (.found spot (.file b)) ∧ gone spot = true

variable {gone : List Text → Bool}

/-- A check gives an answer again, and the same one unless a file with some property was removed. -/
def Kept (gave gives : Except Fault α) (lost : Prop) : Prop :=
  ∀ x, gave = .ok x → ∃ x', gives = .ok x' ∧ (x' = x ∨ lost)

theorem missing_without (hroot : disk.root.WellFormed) (gone : List Text → Bool) (target : RouteTarget) (file : Text) :
    Kept (table.missing disk target file) (table.missing (disk.without gone) target file)
      (LeadsToGone disk table.project gone file) := by
  intro found h
  by_cases hs : ∀ spot b, disk.resolve .target (table.project.under file).text = .ok (.found spot (.file b)) →
      gone spot = false
  · refine ⟨found, ?_, .inl rfl⟩
    unfold missing at h ⊢
    rw [Disk.present_without hroot _ hs]
    exact h
  · push Not at hs
    obtain ⟨spot, b, hr, hg⟩ := hs
    rw [ne_eq, Bool.not_eq_false] at hg
    refine ⟨[⟨target, file⟩], ?_, .inr ⟨spot, b, hr, hg⟩⟩
    unfold missing
    rw [Disk.present_of_gone hroot hr hg]
    rfl

theorem viewIssues_without (hroot : disk.root.WellFormed) (gone : List Text → Bool) (target : RouteTarget)
    (folder : Text) (v : Value) :
    Kept (table.viewIssues disk target folder v) (table.viewIssues (disk.without gone) target folder v)
      (v.truthy = true ∧ LeadsToGone disk table.project gone (viewFile folder v)) := by
  intro found h
  unfold viewIssues at h ⊢
  split at h
  · rename_i hv
    obtain ⟨found', hfound', hlost⟩ := missing_without hroot gone target (viewFile folder v) found h
    exact ⟨found', by rw [if_pos hv, hfound'], hlost.imp_right fun hl => ⟨hv, hl⟩⟩
  · rename_i hv
    exact ⟨found, by rw [if_neg hv, h], .inl rfl⟩

theorem execFile_eq_some {v : Value} {file : Text} (h : execFile v = .ok (some file)) :
    ∃ t, v = .text t ∧ Key.routeFile t = some file := by
  unfold execFile at h
  cases v with
  | text t => exact ⟨t, rfl, Except.ok.inj h⟩
  | _ => cases h

theorem execIssues_without (hroot : disk.root.WellFormed) (gone : List Text → Bool) (v : Value) :
    Kept (table.execIssues disk v) (table.execIssues (disk.without gone) v)
      (∃ t file, v = .text t ∧ Key.routeFile t = some file ∧ LeadsToGone disk table.project gone file) := by
  intro found h
  unfold execIssues at h ⊢
  split at h
  · rename_i hv
    obtain ⟨file?, hfile, h⟩ := bind_ok.1 h
    rw [if_pos hv]
    cases file? with
    | none => exact ⟨found, bind_ok.2 ⟨none, hfile, h⟩, .inl rfl⟩
    | some file =>
      obtain ⟨found', hfound', hlost⟩ := missing_without hroot gone .exec file found h
      obtain ⟨t, rfl, ht⟩ := execFile_eq_some hfile
      exact ⟨found', bind_ok.2 ⟨some file, hfile, hfound'⟩, hlost.imp_right fun hl => ⟨t, file, rfl, ht, hl⟩⟩
  · rename_i hv
    exact ⟨found, by rw [if_neg hv, h], .inl rfl⟩

/-- Whether a route names a removed file. -/
def NamesGone (disk : Disk) (project : Path) (gone : List Text → Bool) (route : List (Text × Value)) : Prop :=
  ∃ target file, Names route target file ∧ LeadsToGone disk project gone file

theorem issues_without (hroot : disk.root.WellFormed) (gone : List Text → Bool) (route : List (Text × Value)) :
    Kept (table.issues disk route) (table.issues (disk.without gone) route)
      (NamesGone disk table.project gone route) := by
  intro found h
  obtain ⟨a, b, c, ha, hb, hc, rfl⟩ := issues_ok.1 h
  obtain ⟨a', ha', hpage⟩ := viewIssues_without hroot gone _ _ _ a ha
  obtain ⟨b', hb', hexec⟩ := execIssues_without hroot gone _ b hb
  obtain ⟨c', hc', hlayout⟩ := viewIssues_without hroot gone _ _ _ c hc
  refine ⟨a' ++ b' ++ c', issues_ok.2 ⟨a', b', c', ha', hb', hc', rfl⟩, ?_⟩
  rcases hpage with rfl | ⟨ht, hl⟩
  · rcases hexec with rfl | ⟨t, file, ht, hf, hl⟩
    · rcases hlayout with rfl | ⟨ht, hl⟩
      · exact .inl rfl
      · exact .inr ⟨_, _, .layout ht, hl⟩
    · exact .inr ⟨_, _, .exec ht hf, hl⟩
  · exact .inr ⟨_, _, .page ht, hl⟩

/-! ## The whole table -/

theorem dead?_route {v : Value} {d : DeadRoute} (h : table.dead? disk v = .ok (some d)) : v = .object d.route := by
  unfold dead? at h
  split at h
  · obtain ⟨found, -, h⟩ := bind_ok.1 h
    split at h
    · cases h
    · cases h
      rfl
  · cases h

theorem dead?_path {v : Value} {d : DeadRoute} (h : table.dead? disk v = .ok (some d)) :
    d.path = Value.fieldD d.route "path" := by
  obtain rfl := dead?_route h
  obtain ⟨found, -, h⟩ := bind_ok.1 h
  split at h
  · cases h
  · rw [← Option.some.inj (Except.ok.inj h)]

theorem dead?_object {route : List (Text × Value)} {found : List RouteIssue} (h : table.issues disk route = .ok found) :
    table.dead? disk (.object route) =
      .ok (if found.isEmpty then none else some ⟨Value.fieldD route "path", route, found⟩) := by
  show (table.issues disk route >>= _) = _
  rw [h]
  show (if found.isEmpty then _ else _) = _
  split
  · rfl
  · rfl

theorem dead?_without (hroot : disk.root.WellFormed) (gone : List Text → Bool) (v : Value) :
    Kept (table.dead? disk v) (table.dead? (disk.without gone) v)
      (∃ route, v = .object route ∧ NamesGone disk table.project gone route) := by
  intro d h
  cases v with
  | object route =>
    obtain ⟨found, hfound, h⟩ := bind_ok.1 h
    obtain ⟨found', hfound', hlost⟩ := issues_without hroot gone route found hfound
    rcases hlost with rfl | hlost
    · exact ⟨d, bind_ok.2 ⟨found', hfound', h⟩, .inl rfl⟩
    -- other issues than before were found, but finding them did not fail
    · exact ⟨_, dead?_object hfound', .inr ⟨route, rfl, hlost⟩⟩
  | _ => exact ⟨d, h, .inl rfl⟩

theorem fields_of_readJson {fields : List (Text × Value)} (hread : disk.readJson table.file = .ok (.object fields)) :
    table.fields disk = .ok fields := by
  unfold RouteTable.fields
  rw [hread]

theorem scan_ok {s : RouteScan} {fields : List (Text × Value)} {routes : List Value}
    (hpresent : disk.present table.file.text = .ok true) (hread : disk.readJson table.file = .ok (.object fields))
    (hroutes : routesOf fields = .list routes) :
    table.scan disk = .ok s ↔ ∃ dead, List.Forall₂ (fun v d => table.dead? disk v = .ok d) routes dead ∧
      s = ⟨true, routes.length, dead.filterMap id⟩ := by
  have hfields := fields_of_readJson hread
  have hscan : table.scan disk = (do
      let dead ← routes.mapM (table.dead? disk)
      return ⟨true, routes.length, dead.filterMap id⟩) := by
    unfold scan
    rw [hpresent, hfields]
    simp only [bind, Except.bind, hroutes]
    rfl
  rw [hscan, bind_ok]
  simp only [mapM_ok]
  constructor
  · rintro ⟨dead, hdead, h⟩
    cases h
    exact ⟨dead, hdead, rfl⟩
  · rintro ⟨dead, hdead, rfl⟩
    exact ⟨dead, hdead, rfl⟩

/-- After files were removed a table can be checked again, and every route that is dead was dead before
with the same issues, or names a removed file. -/
theorem scan_without (hroot : disk.root.WellFormed) {s : RouteScan} {fields : List (Text × Value)} {routes : List Value}
    (hpresent : disk.present table.file.text = .ok true) (hread : disk.readJson table.file = .ok (.object fields))
    (hpresent' : (disk.without gone).present table.file.text = .ok true)
    (hread' : (disk.without gone).readJson table.file = .ok (.object fields))
    (hroutes : routesOf fields = .list routes) (h : table.scan disk = .ok s) :
    ∃ s', table.scan (disk.without gone) = .ok s' ∧ s'.total = s.total ∧ ∀ d ∈ s'.dead,
      .object d.route ∈ routes ∧ (d ∈ s.dead ∨ NamesGone disk table.project gone d.route) := by
  obtain ⟨dead, hdead, rfl⟩ := (scan_ok hpresent hread hroutes).1 h
  have hruns : ∃ dead', List.Forall₂ (fun v d => table.dead? (disk.without gone) v = .ok d) routes dead' := by
    obtain ⟨dead', hdead'⟩ := Outcome.mapM_runs (f := table.dead? (disk.without gone)) (l := routes) fun v hv => by
      obtain ⟨d, -, hd⟩ := forall₂_mem_left hdead hv
      obtain ⟨d', hd', -⟩ := dead?_without hroot gone v d hd
      exact ⟨d', hd'⟩
    exact ⟨dead', mapM_ok.1 hdead'⟩
  obtain ⟨dead', hdead'⟩ := hruns
  refine ⟨_, (scan_ok hpresent' hread' hroutes).2 ⟨dead', hdead', rfl⟩, rfl, fun d hd => ?_⟩
  obtain ⟨_, hmem, rfl⟩ := List.mem_filterMap.1 hd
  obtain ⟨v, hv, hd'⟩ := forall₂_mem_right hdead' hmem
  obtain rfl := dead?_route hd'
  refine ⟨hv, ?_⟩
  obtain ⟨x, hx, hbefore⟩ := forall₂_mem_left hdead hv
  obtain ⟨x', hx', hlost⟩ := dead?_without hroot gone _ x hbefore
  obtain rfl : x' = some d := Except.ok.inj (hx'.symm.trans hd')
  rcases hlost with rfl | ⟨route, hroute, hlost⟩
  · exact .inl (List.mem_filterMap.2 ⟨some d, hx, rfl⟩)
  · obtain rfl := Value.object.inj hroute
    exact .inr hlost

end RouteTable

end ActionSweep
