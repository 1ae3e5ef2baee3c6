/-
Routing tables that stop the program. A file that is no JSON object is reported as such, by checks and by deletions. What
an object has for its routes, and what the routes have for their fields, is used without a look at its kind, and the files
that are asked about or written may be refused; so there are tables for which other faults arise. What they are is said
here exactly. Whatever the fault, the file of the table stays as it is.
-/
import ActionSweep.Proofs.Files.Failing
import ActionSweep.Proofs.Routes.Exact

namespace ActionSweep

open Json (understood?)

namespace RouteTable

open Outcome (bind_ok mapM_ok map_ok)
open FileWork (NotReplaced)

variable {table : RouteTable} {disk disk' : Disk} {place : List Text} {bytes : Bytes} {paths : List Text}
  {fields : List (Text × Value)} {f : Fault}

/-! ## Faults that are no reports -/

theorem not_own_of_isFile (h : f.isFile = true) : f.isOwn = false := by
  cases f with
  | file _ | sameFile _ _ _ | noFolder _ | noSettingsFile _ => rfl
  | _ => cases h

theorem missing_fault {target : RouteTarget} {file : Text} (h : table.missing disk target file = .error f) : f.isOwn = false := by
  unfold missing at h
  cases hpresent : disk.present (table.project.under file).text with
  | error g =>
    rw [hpresent] at h
    cases h
    exact not_own_of_isFile (Disk.present_fault hpresent)
  | ok b =>
    rw [hpresent] at h
    cases b <;> cases h

theorem viewIssues_fault {target : RouteTarget} {folder : Text} {v : Value}
    (h : table.viewIssues disk target folder v = .error f) : f.isOwn = false := by
  unfold viewIssues at h
  split at h
  · exact missing_fault h
  · cases h

theorem execIssues_fault {v : Value} (h : table.execIssues disk v = .error f) : f.isOwn = false := by
  unfold execIssues at h
  split at h
  · cases hfile : execFile v with
    | error g =>
      rw [hfile] at h
      cases h
      cases v <;> cases hfile <;> rfl
    | ok file? =>
      rw [hfile] at h
      cases file? with
      | none => cases h
      | some file => exact missing_fault h
  · cases h

/-- What goes wrong when a route is checked is never reported as a fault of the table. -/
theorem dead?_fault {v : Value} (h : table.dead? disk v = .error f) : f.isOwn = false := by
  cases v with
  | object route =>
    change (table.issues disk route >>= _) = _ at h
    rw [issues_eq] at h
    cases ha : table.viewIssues disk .page "views/" (Value.fieldD route "page") with
    | error g =>
      rw [ha] at h
      cases h
      exact viewIssues_fault ha
    | ok a =>
      cases hb : table.execIssues disk (Value.fieldD route "exec") with
      | error g =>
        rw [ha, hb] at h
        cases h
        exact execIssues_fault hb
      | ok b =>
        cases hc : table.viewIssues disk .layout "views/layouts/" (Value.fieldD route "layout") with
        | error g =>
          rw [ha, hb, hc] at h
          cases h
          exact viewIssues_fault hc
        | ok c =>
          rw [ha, hb, hc] at h
          simp only [bind, Except.bind, pure, Except.pure] at h
          split at h <;> cases h
  | _ => cases h

/-! ## The document -/

theorem fields_of_understood (hx : disk.resolve .target table.file.text = .ok (.found place (.file bytes)))
    (h : understood? disk.around.nesting Utf8.strictUnmarked bytes = some (.object fields)) : table.fields disk = .ok fields := by
  obtain ⟨t, ht, hread⟩ := Json.understood?_eq_some h
  have hjson : disk.readJson table.file = .ok (.object fields) := by
    unfold Disk.readJson
    rw [Disk.read_ok.2 ⟨place, hx⟩]
    simp [ht, hread, Except.mapError, bind, Except.bind]
  exact fields_of_readJson hjson

/-- A file that is no JSON object is reported. -/
theorem fields_of_not_understood (hx : disk.resolve .target table.file.text = .ok (.found place (.file bytes)))
    (hdeep : ∀ t, Utf8.strictUnmarked bytes = .ok t → ¬ Json.TooDeep disk.around.nesting t.unifyLines)
    (h : ∀ fields, understood? disk.around.nesting Utf8.strictUnmarked bytes ≠ some (.object fields)) :
    ∃ reason, table.fields disk = .error (.structured (some table.file.text) reason) := by
  have hbytes := Disk.read_ok.2 ⟨place, hx⟩
  unfold understood? at h
  unfold RouteTable.fields Disk.readJson
  rw [hbytes]
  cases ht : Utf8.strictUnmarked bytes with
  | error g =>
    have hvalue : (Fault.encoding g).isValue = true := rfl
    simp [ht, hvalue, Except.mapError, bind, Except.bind]
  | ok t =>
    cases hread : Json.readWithin disk.around.nesting t.unifyLines with
    | error g =>
      have hvalue := Json.isValue_of_read hread (hdeep t ht)
      simp [ht, hread, hvalue, Except.mapError, bind, Except.bind]
    | ok v =>
      rw [ht] at h
      cases v with
      | object fields => exact absurd (by simp [Except.toOption, hread]) (h fields)
      | _ => simp [ht, hread, Except.mapError, bind, Except.bind]

/-! ## The routes -/

/-- What a table has for its routes can be walked over. -/
def Walkable (fields : List (Text × Value)) : Prop :=
  (Value.fieldD fields "routes").truthy = true → (Value.fieldD fields "routes").isScalar = false

/-- What is walked over: the items of a list, and of a text or an object its characters or names, of which none is a route. -/
theorem items_of_walkable (hin : (Value.fieldD fields "routes").InText) (h : Walkable fields) :
    ∃ entries, (routesOf fields).items = .ok entries ∧ ∀ route, .object route ∈ entries ↔
      ∃ routes, Value.fieldD fields "routes" = .list routes ∧ .object route ∈ routes := by
  unfold Walkable at h
  unfold routesOf
  generalize Value.fieldD fields "routes" = w at hin h
  by_cases htrue : w.truthy = true
  · have hscalar := h htrue
    dsimp only
    rw [if_pos htrue]
    cases w with
    | list routes => exact ⟨routes, rfl, fun route => ⟨fun hr => ⟨routes, rfl, hr⟩, fun ⟨_, hl, hr⟩ => by cases hl; exact hr⟩⟩
    | text t => exact ⟨_, rfl, fun route => iff_of_false (by simp) nofun⟩
    | object fs => exact ⟨_, rfl, fun route => iff_of_false (by simp) nofun⟩
    | null => cases htrue
    | bool _ | int _ | float _ => cases hscalar
    | other _ _ _ _ => exact hin.elim
  · dsimp only
    rw [if_neg htrue]
    refine ⟨[], rfl, fun route => iff_of_false nofun ?_⟩
    rintro ⟨routes, rfl, hr⟩
    cases routes with
    | nil => cases hr
    | cons v routes => exact htrue rfl

theorem items_of_not_walkable (h : ¬ Walkable fields) : ∃ kind, (routesOf fields).items = .error (.notIterable kind) ∧
    (routesOf fields).length = .error (.noLength kind) := by
  unfold Walkable at h
  unfold routesOf
  generalize Value.fieldD fields "routes" = w at h
  push Not at h
  obtain ⟨htrue, hscalar⟩ := h
  dsimp only
  rw [if_pos htrue]
  cases w with
  | bool _ | int _ | float _ => exact ⟨_, rfl, rfl⟩
  | null | text _ | list _ | object _ | other _ _ _ _ => exact absurd rfl hscalar

/-! ## Checks -/

/-- A table whose routes can be checked. -/
structure CanCheck (table : RouteTable) (disk : Disk) (fields : List (Text × Value)) : Prop where
  walkable : Walkable fields
  exec : ∀ routes, Value.fieldD fields "routes" = .list routes → ∀ route, .object route ∈ routes →
    (Value.fieldD route "exec").truthy = true → ∃ t, Value.fieldD route "exec" = .text t
  asks : ∀ routes, Value.fieldD fields "routes" = .list routes → ∀ route, .object route ∈ routes → Asks table disk route

/-- A check of a table that can be walked over is one of its entries. -/
theorem scan_walked (hx : disk.resolve .target table.file.text = .ok (.found place (.file bytes)))
    (hfields : table.fields disk = .ok fields) {entries : List Value} (hitems : (routesOf fields).items = .ok entries) :
    table.scan disk = (entries.mapM (table.dead? disk)).map fun dead => ⟨true, entries.length, dead.filterMap id⟩ := by
  have hlength : (routesOf fields).length = .ok entries.length := by
    unfold Value.length
    rw [hitems]
  unfold scan
  rw [Disk.present_ok.2 ⟨place, _, hx⟩, hfields]
  simp only [bind, Except.bind, hlength, hitems, Except.mapError]
  cases entries.mapM (table.dead? disk) with
  | error f => rfl
  | ok dead => rfl

theorem scan_not_walked (hx : disk.resolve .target table.file.text = .ok (.found place (.file bytes)))
    (hfields : table.fields disk = .ok fields) {m : Misuse} (hlength : (routesOf fields).length = .error m) :
    table.scan disk = .error (.misuse m) := by
  unfold scan
  rw [Disk.present_ok.2 ⟨place, _, hx⟩, hfields]
  simp only [bind, Except.bind, hlength, Except.mapError]
  rfl

theorem dead?_runs_iff {route : List (Text × Value)} : (∃ d, table.dead? disk (.object route) = .ok d) ↔
    ((Value.fieldD route "exec").truthy = true → ∃ t, Value.fieldD route "exec" = .text t) ∧ Asks table disk route := by
  rw [← issues_runs_iff_text]
  constructor
  · rintro ⟨d, h⟩
    obtain ⟨found, hfound, -⟩ := bind_ok.1 h
    exact ⟨found, hfound⟩
  · rintro ⟨found, hfound⟩
    exact ⟨_, dead?_object hfound⟩

/-- An object is checked without a fault if its routes can be checked, and never reported. -/
theorem scan_runs_or_stops (hx : disk.resolve .target table.file.text = .ok (.found place (.file bytes)))
    (h : understood? disk.around.nesting Utf8.strictUnmarked bytes = some (.object fields)) :
    table.CanCheck disk fields ∧ (∃ s, table.scan disk = .ok s) ∨
      ¬ table.CanCheck disk fields ∧ ∃ f, table.scan disk = .error f ∧ f.isOwn = false := by
  obtain ⟨t, -, hread⟩ := Json.understood?_eq_some h
  have hfields := fields_of_understood hx h
  by_cases hwalk : Walkable fields
  · obtain ⟨entries, hitems, hentries⟩ := items_of_walkable (Json.inText_fieldD hread "routes") hwalk
    rw [scan_walked hx hfields hitems]
    cases hdead : entries.mapM (table.dead? disk) with
    | ok dead =>
      have hruns : ∀ route, .object route ∈ entries → ∃ d, table.dead? disk (.object route) = .ok d := by
        intro route hroute
        obtain ⟨d, -, hd⟩ := forall₂_mem_left (mapM_ok.1 hdead) hroute
        exact ⟨d, hd⟩
      refine .inl ⟨⟨hwalk, fun routes hroutes route hroute => ?_, fun routes hroutes route hroute => ?_⟩, _, rfl⟩
      · exact (dead?_runs_iff.1 (hruns route ((hentries route).2 ⟨routes, hroutes, hroute⟩))).1
      · exact (dead?_runs_iff.1 (hruns route ((hentries route).2 ⟨routes, hroutes, hroute⟩))).2
    | error f =>
      obtain ⟨v, hv, hf⟩ := Outcome.mapM_error hdead
      refine .inr ⟨fun hcan => ?_, f, rfl, dead?_fault hf⟩
      cases v with
      | object route =>
        obtain ⟨routes, hroutes, hroute⟩ := (hentries route).1 hv
        obtain ⟨d, hd⟩ := dead?_runs_iff.2 ⟨hcan.exec routes hroutes route hroute, hcan.asks routes hroutes route hroute⟩
        rw [hf] at hd
        cases hd
      | _ => cases hf
  · obtain ⟨kind, -, hlength⟩ := items_of_not_walkable hwalk
    exact .inr ⟨fun hcan => hwalk hcan.walkable, _, scan_not_walked hx hfields hlength, rfl⟩

/-! ## Deletions -/

/-- There is a path beside that of a table whose file is there. -/
theorem exists_beside (hdisk : disk.Grounded) (hfile : table.file.Normal)
    (hx : disk.resolve .target table.file.text = .ok (.found place (.file bytes))) :
    ∃ beside, table.file.withExtension? ".tmp" = some beside := by
  obtain ⟨front, n, hname, -⟩ := Disk.name_of_noFolder hdisk hfile hx nofun
  rw [hname]
  exact ⟨_, Path.withExtension?_concat ..⟩

/-- A table from which routes can be deleted. -/
structure CanDelete (table : RouteTable) (disk : Disk) (fields : List (Text × Value)) : Prop where
  walkable : Walkable fields
  path : ∀ routes, Value.fieldD fields "routes" = .list routes → ∀ route, .object route ∈ routes →
    (Value.fieldD route "path").hashable = .ok ()
  beside : ∀ beside, table.file.withExtension? ".tmp" = some beside → disk.Writable beside.text

theorem delete_not_read (hfields : table.fields disk = .error f) (paths : List Text) :
    table.delete (paths.map .text) disk = .error f disk := by
  simp only [delete, bind, EStateM.bind, FileWork.ask, hashable_texts, hfields, Except.mapError]

theorem delete_not_walked (hfields : table.fields disk = .ok fields) {m : Misuse}
    (hitems : (routesOf fields).items = .error m) (paths : List Text) :
    table.delete (paths.map .text) disk = .error (.misuse m) disk := by
  simp only [delete, bind, EStateM.bind, FileWork.ask, hashable_texts, hfields, hitems, Except.mapError]

theorem delete_not_compared (hfields : table.fields disk = .ok fields) {entries : List Value}
    (hitems : (routesOf fields).items = .ok entries) {route : List (Text × Value)} (hroute : .object route ∈ entries)
    (hpath : (Value.fieldD route "path").hashable ≠ .ok ()) (paths : List Text) :
    ∃ m, table.delete (paths.map .text) disk = .error (.misuse m) disk := by
  cases hlisted : entries.mapM (hasPath (paths.map .text)) with
  | ok listed =>
    obtain ⟨b, -, hb⟩ := forall₂_mem_left (mapM_ok.1 hlisted) hroute
    obtain ⟨⟨⟩, hhash, -⟩ := map_ok.1 (show (Value.hashable _).map _ = .ok b from hb)
    exact absurd hhash hpath
  | error m =>
    refine ⟨m, ?_⟩
    simp only [delete, bind, EStateM.bind, FileWork.ask, hashable_texts, hfields, hitems, hlisted, Except.mapError]

/-- Whether routes are deleted from a table turns on whether the file beside it can be written. -/
theorem delete_written (hdisk : disk.Grounded) (hfile : table.file.Normal)
    (hx : disk.resolve .target table.file.text = .ok (.found place (.file bytes))) (hfields : table.fields disk = .ok fields)
    {entries : List Value} (hitems : (routesOf fields).items = .ok entries)
    (hpath : ∀ route, .object route ∈ entries → (Value.fieldD route "path").hashable = .ok ()) {beside : Path}
    (hbeside : table.file.withExtension? ".tmp" = some beside) (paths : List Text) :
    disk.Writable beside.text ∧
        (∃ disk', table.delete (paths.map .text) disk = .ok (entries.countP (isListed paths)) disk') ∨
      ¬ disk.Writable beside.text ∧
        ∃ f disk', table.delete (paths.map .text) disk = .error f disk' ∧ f.isFile = true ∧ NotReplaced beside disk disk' := by
  have hdelete := delete_walked hfields hitems hpath hbeside paths
  have hruns := @FileWork.replaceFile_runs_iff _ _ _ (fileText (Value.putField "routes" (.list (unlisted paths entries)) fields))
    _ _ hdisk hfile _ (by decide) (by decide) hbeside hx
  rw [hdelete, ← hruns]
  simp only [bind, EStateM.bind]
  cases hreplace : FileWork.replaceFile beside table.file
      (fileText (Value.putField "routes" (.list (unlisted paths entries)) fields)) disk with
  | ok u disk' => exact .inl ⟨⟨disk', rfl⟩, disk', rfl⟩
  | error f disk' =>
    have hfails := FileWork.replaceFile_fails hdisk hfile (by decide) (by decide) (by decide) hbeside hx hreplace
    exact .inr ⟨nofun, f, disk', rfl, hfails⟩

/-- Routes are deleted from an object if that can be done; if not, nothing is reported, and the file stays. -/
theorem delete_runs_or_stops (hdisk : disk.Grounded) (hfile : table.file.Normal)
    (hx : disk.resolve .target table.file.text = .ok (.found place (.file bytes)))
    (h : understood? disk.around.nesting Utf8.strictUnmarked bytes = some (.object fields)) (paths : List Text) :
    table.CanDelete disk fields ∧ (∃ n disk', table.delete (paths.map .text) disk = .ok n disk') ∨
      ¬ table.CanDelete disk fields ∧ ∃ f disk', table.delete (paths.map .text) disk = .error f disk' ∧ f.isOwn = false ∧
        ∀ beside, table.file.withExtension? ".tmp" = some beside → NotReplaced beside disk disk' := by
  obtain ⟨t, -, hread⟩ := Json.understood?_eq_some h
  have hfields := fields_of_understood hx h
  by_cases hwalk : Walkable fields
  swap
  · obtain ⟨kind, hitems, -⟩ := items_of_not_walkable hwalk
    exact .inr ⟨fun hcan => hwalk hcan.walkable, _, _, delete_not_walked hfields hitems paths, rfl, fun _ _ => .same⟩
  obtain ⟨entries, hitems, hentries⟩ := items_of_walkable (Json.inText_fieldD hread "routes") hwalk
  by_cases hpath : ∀ route, .object route ∈ entries → (Value.fieldD route "path").hashable = .ok ()
  swap
  · push Not at hpath
    obtain ⟨route, hroute, hhash⟩ := hpath
    obtain ⟨m, hm⟩ := delete_not_compared hfields hitems hroute hhash paths
    refine .inr ⟨fun hcan => hhash ?_, _, _, hm, rfl, fun _ _ => .same⟩
    obtain ⟨routes, hroutes, hmem⟩ := (hentries route).1 hroute
    exact hcan.path routes hroutes route hmem
  obtain ⟨beside, hbeside⟩ := exists_beside hdisk hfile hx
  have honly : ∀ {P : Path → Prop}, P beside → ∀ other, table.file.withExtension? ".tmp" = some other → P other := by
    intro P hP other hother
    rw [hbeside] at hother
    cases hother
    exact hP
  rcases delete_written hdisk hfile hx hfields hitems hpath hbeside paths with
    ⟨hwritable, disk', hrun⟩ | ⟨hnot, f, disk', hrun, hisFile, hleft⟩
  · refine .inl ⟨⟨hwalk, fun routes hroutes route hroute => ?_, honly hwritable⟩, _, disk', hrun⟩
    exact hpath route ((hentries route).2 ⟨routes, hroutes, hroute⟩)
  · exact .inr ⟨fun hcan => hnot (hcan.beside beside hbeside), f, disk', hrun, not_own_of_isFile hisFile, honly hleft⟩

/-! ## All contents -/

/-- Whatever the bytes of the file of a table are: a check ends well or reports the file, if its routes can be checked in case
it is an object, and otherwise in another fault; the same holds for a deletion of routes by their paths. A deletion that ends
in a fault leaves the file as it is, and changes nothing but that it may remove a link from the path beside it. -/
theorem faults_exact (hdisk : disk.Grounded) (hfile : table.file.Normal)
    (hx : disk.resolve .target table.file.text = .ok (.found place (.file bytes)))
    (hdeep : ∀ t, Utf8.strictUnmarked bytes = .ok t → ¬ Json.TooDeep disk.around.nesting t.unifyLines) (paths : List Text) :
    ((∀ f, table.scan disk = .error f → ∃ reason, f = .structured (some table.file.text) reason) ↔
      ∀ fields, understood? disk.around.nesting Utf8.strictUnmarked bytes = some (.object fields) → table.CanCheck disk fields) ∧
    ((∀ f disk', table.delete (paths.map .text) disk = .error f disk' →
        ∃ reason, f = .structured (some table.file.text) reason) ↔
      ∀ fields, understood? disk.around.nesting Utf8.strictUnmarked bytes = some (.object fields) → table.CanDelete disk fields) ∧
    ∀ f disk', table.delete (paths.map .text) disk = .error f disk' → disk'.root.find? place = some (.file bytes) ∧
      ∀ beside, table.file.withExtension? ".tmp" = some beside → NotReplaced beside disk disk' := by
  by_cases hobject : ∃ fields, understood? disk.around.nesting Utf8.strictUnmarked bytes = some (.object fields)
  · obtain ⟨fields, hobject⟩ := hobject
    simp only [hobject, Option.some.injEq, Value.object.injEq, forall_eq']
    refine ⟨?_, ?_, ?_⟩
    · rcases scan_runs_or_stops hx hobject with ⟨hcan, s, hs⟩ | ⟨hcannot, f, hf, hown⟩
      · refine iff_of_true (fun f hf => ?_) hcan
        rw [hs] at hf
        cases hf
      · refine iff_of_false (fun h => ?_) hcannot
        obtain ⟨reason, rfl⟩ := h f hf
        cases hown
    · rcases delete_runs_or_stops hdisk hfile hx hobject paths with ⟨hcan, n, disk', hrun⟩ | ⟨hcannot, f, disk', hf, hown, -⟩
      · refine iff_of_true (fun f disk'' hf => ?_) hcan
        rw [hrun] at hf
        cases hf
      · refine iff_of_false (fun h => ?_) hcannot
        obtain ⟨reason, rfl⟩ := h f disk' hf
        cases hown
    · intro f disk' hf
      rcases delete_runs_or_stops hdisk hfile hx hobject paths with ⟨-, n, disk'', hrun⟩ | ⟨-, g, disk'', hrun, -, hleft⟩
      · rw [hrun] at hf
        cases hf
      · rw [hrun] at hf
        cases hf
        obtain ⟨beside, hbeside⟩ := exists_beside hdisk hfile hx
        exact ⟨(hleft beside hbeside).file (Disk.resolve_stands hx), hleft⟩
  · push Not at hobject
    obtain ⟨reason, hreason⟩ := fields_of_not_understood hx hdeep hobject
    have hscan : table.scan disk = .error (.structured (some table.file.text) reason) := by
      unfold scan
      rw [Disk.present_ok.2 ⟨place, _, hx⟩, hreason]
      rfl
    have hdelete := delete_not_read hreason paths
    refine ⟨iff_of_true ?_ fun fields h => absurd h (hobject fields), iff_of_true ?_ fun fields h => absurd h (hobject fields), ?_⟩
    · intro f hf
      rw [hscan] at hf
      cases hf
      exact ⟨reason, rfl⟩
    · intro f disk' hf
      rw [hdelete] at hf
      cases hf
      exact ⟨reason, rfl⟩
    · intro f disk' hf
      rw [hdelete] at hf
      cases hf
      exact ⟨Disk.resolve_stands hx, fun _ _ => .same⟩

end RouteTable

namespace Sample

/-- A project with a routing table of a text. -/
def tableDisk (content : Text) : Disk := settingsDisk (file "routes.json" content .empty)

/-- A table that is cut off in the middle. -/
def brokenTable : Text := "\x7b\"routes\": "

end Sample

namespace RouteTable

/-- A table that is cut off is reported, and stays. -/
theorem sample_faults_exact :
    (∀ t, Utf8.strictUnmarked (Utf8.encode Sample.brokenTable) = .ok t → ¬ Json.TooDeep Surroundings.standardNesting t.unifyLines) ∧
      (∃ reason, Sample.table.scan (Sample.tableDisk Sample.brokenTable) = .error (.structured (some Sample.table.file.text) reason)) ∧
      ∃ reason disk', Sample.table.delete [.text "/r"] (Sample.tableDisk Sample.brokenTable) =
          .error (.structured (some Sample.table.file.text) reason) disk' ∧
        disk'.root.find? ["p", "app", "config", "routes.json"] = some (.file (Utf8.encode Sample.brokenTable)) := by
  have hstrict : Utf8.strictUnmarked (Utf8.encode Sample.brokenTable) = .ok Sample.brokenTable := by decide +kernel
  obtain ⟨f, hf, hproblem⟩ : ∃ f, Json.readWithin Surroundings.standardNesting Sample.brokenTable.unifyLines = .error f ∧ f.problem = .expectingValue :=
    Outcome.error_of_check (by decide +kernel)
  have hdeep : ∀ t, Utf8.strictUnmarked (Utf8.encode Sample.brokenTable) = .ok t → ¬ Json.TooDeep Surroundings.standardNesting t.unifyLines := by
    rintro t ht ⟨g, innermost, hg, hnesting⟩
    obtain rfl : Sample.brokenTable = t := Except.ok.inj (hstrict.symm.trans ht)
    obtain rfl : f = g := Except.error.inj (hf.symm.trans hg)
    rw [hproblem] at hnesting
    cases hnesting
  have hnone : ∀ fields, understood? Surroundings.standardNesting Utf8.strictUnmarked (Utf8.encode Sample.brokenTable) ≠ some (.object fields) := by
    intro fields hfields
    obtain ⟨t, ht, hread⟩ := Json.understood?_eq_some hfields
    obtain rfl : Sample.brokenTable = t := Except.ok.inj (hstrict.symm.trans ht)
    rw [hf] at hread
    cases hread
  have hx : (Sample.tableDisk Sample.brokenTable).resolve .target Sample.table.file.text =
      .ok (.found ["p", "app", "config", "routes.json"] (.file (Utf8.encode Sample.brokenTable))) := by decide +kernel
  obtain ⟨hscan, hdelete, hstays⟩ := faults_exact ⟨_, rfl⟩ (by decide) hx hdeep ["/r"]
  obtain ⟨g, hg, -⟩ : ∃ g, Sample.table.scan (Sample.tableDisk Sample.brokenTable) = .error g ∧ True :=
    Outcome.error_of_check (by decide +kernel)
  obtain ⟨k, disk', hk, -⟩ : ∃ k disk', Sample.table.delete (["/r"].map .text) (Sample.tableDisk Sample.brokenTable) = .error k disk' ∧
      True := Outcome.failed_of_check (by decide +kernel)
  obtain ⟨reason, rfl⟩ := hscan.2 (fun fields h => absurd h (hnone fields)) g hg
  obtain ⟨reason', rfl⟩ := hdelete.2 (fun fields h => absurd h (hnone fields)) k disk' hk
  exact ⟨hdeep, ⟨reason, hg⟩, reason', disk', hk, (hstays _ _ hk).1⟩

/-- A number in the place of the routes ends a check and a deletion in faults that are no reports. -/
theorem number_of_routes_not_reported :
    (∃ f, Sample.table.scan (Sample.tableDisk "\x7b\"routes\": 5\x7d") = .error f ∧ f.isOwn = false ∧
      f.message = "object of type 'int' has no len()") ∧
    ∃ f disk', Sample.table.delete [] (Sample.tableDisk "\x7b\"routes\": 5\x7d") = .error f disk' ∧ f.isOwn = false ∧
      f.message = "'int' object is not iterable" :=
  ⟨Outcome.error_of_check (by decide +kernel), Outcome.failed_of_check (by decide +kernel)⟩

end RouteTable

end ActionSweep
