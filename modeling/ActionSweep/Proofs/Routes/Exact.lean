/-
Deleting routes by their paths. Of all that a routing table holds, exactly the routes with one of the paths go, and nothing
but the file of the table changes. So deleting them again removes nothing, and a check reports the routes that were dead
before and are still there.
-/
import ActionSweep.Proofs.Extract.Document
import ActionSweep.Proofs.Files.Alike
import ActionSweep.Proofs.Json.Reading
import ActionSweep.Proofs.Routes.Deletion

namespace ActionSweep

open Json (Fits Readable)

namespace RouteTable

open Outcome (mapM_ok)

variable {table : RouteTable} {disk disk' : Disk} {paths : List Text} {fields : List (Text × Value)} {routes : List Value}

/-! ## Which routes go -/

/-- Whether a path of a route is one of some texts. -/
def isOneOf (paths : List Text) : Value → Bool
  | .text t => paths.contains t
  | _ => false

/-- Whether an entry of a table is a route with one of some paths. -/
def isListed (paths : List Text) : Value → Bool
  | .object route => isOneOf paths (Value.fieldD route "path")
  | _ => false

/-- The entries of a table without the routes with some paths, in their order. -/
def unlisted (paths : List Text) (routes : List Value) : List Value := routes.filter fun v => !isListed paths v

theorem text_same (t : Text) (v : Value) : (Value.text t).same v = true ↔ v = .text t := by
  cases v <;> simp [Value.same, Value.sameScalar, Value.wholeNumber?, eq_comm]

theorem listed_texts (paths : List Text) (v : Value) : listed (paths.map .text) v = isListed paths v := by
  cases v with
  | object route =>
    rw [Bool.eq_iff_iff]
    simp only [listed, isListed, List.any_map, List.any_eq_true, Function.comp_apply, text_same]
    constructor
    · rintro ⟨t, ht, hpath⟩
      rw [hpath]
      exact List.contains_iff_mem.2 ht
    · intro h
      cases hpath : Value.fieldD route "path" with
      | text t =>
        rw [hpath] at h
        exact ⟨t, List.contains_iff_mem.1 h, rfl⟩
      | _ =>
        rw [hpath] at h
        cases h
  | _ => rfl

/-! ## What is left in the file -/

/-- Fields with another value for a name; all others stay, and all stay in their places. -/
def withValue (name : Text) (v : Value) (fields : List (Text × Value)) : List (Text × Value) :=
  fields.map fun f => if f.1 = name then (f.1, v) else f

/-- The fields of a table with other routes. -/
def withRoutes (routes : List Value) (fields : List (Text × Value)) : List (Text × Value) :=
  withValue "routes" (.list routes) fields

theorem withValue_of_not_mem {name : Text} (v : Value) (h : name ∉ fields.map (·.1)) : withValue name v fields = fields := by
  have hsame : ∀ f ∈ fields, (if f.1 = name then (f.1, v) else f) = id f := by
    intro f hf
    refine if_neg ?_
    rintro rfl
    exact h (List.mem_map_of_mem hf)
  rw [withValue, List.map_congr_left hsame, List.map_id]

theorem putField_eq_withValue {name : Text} {v : Value} : ∀ {fields : List (Text × Value)}, (fields.map (·.1)).Nodup →
    name ∈ fields.map (·.1) → Value.putField name v fields = withValue name v fields
  | (n, w) :: fields, hnodup, hmem => by
    rw [List.map_cons, List.nodup_cons] at hnodup
    show (if n = name then _ else _) = (if n = name then _ else _) :: withValue name v fields
    by_cases hn : n = name
    · rw [if_pos hn, if_pos hn, withValue_of_not_mem v (hn ▸ hnodup.1)]
    · have hrest := (List.mem_cons.1 hmem).resolve_left (Ne.symm hn)
      rw [if_neg hn, if_neg hn, putField_eq_withValue hnodup.2 hrest]

theorem fieldD_withValue {name : Text} {v : Value} : ∀ {fields : List (Text × Value)}, name ∈ fields.map (·.1) →
    Value.fieldD (withValue name v fields) name = v
  | (n, w) :: fields, hmem => by
    unfold Value.fieldD
    rw [withValue, List.map_cons]
    by_cases hn : n = name
    · simp [Value.field?, hn]
    · have hrest := (List.mem_cons.1 hmem).resolve_left (Ne.symm hn)
      simp only [if_neg hn, Value.field?]
      exact fieldD_withValue hrest

/-- A table is read back that was written. -/
theorem readJson_written {path : Path} (hfits : Fits disk.around.nesting (.object fields))
    (h : disk.read path.text = .ok (Utf8.encode (fileText fields))) : disk.readJson path = .ok (.object fields) := by
  have hends : Json.EndsNumber ['\n'] := by
    rintro c hc
    cases hc
    decide
  have hread : Json.readWithin disk.around.nesting (fileText fields) = .ok (.object fields) :=
    Json.read_render_space hfits hends rfl
  -- nothing of the text is a mark or a line end that reading would change
  have hplain : ∀ c ∈ fileText fields, c.toNat < 0x80 ∧ c ≠ '\r' := by
    intro c hc
    rcases List.mem_append.1 hc with hc | hc
    · rcases Json.plain_write (.object fields) 0 hfits c hc with rfl | ⟨hlow, hhigh⟩
      · decide
      · refine ⟨by omega, ?_⟩
        rintro rfl
        exact absurd hlow (by decide)
    · rw [List.mem_singleton.1 hc]
      decide
  have hmarked : Utf8.strictUnmarked (Utf8.encode (fileText fields)) = .ok (fileText fields) :=
    Utf8.strictUnmarked_encode (by simp [fileText]) fun c hc => (hplain c hc).1
  have hunified : (fileText fields).unifyLines = fileText fields :=
    Text.unifyLines_of_not_mem fun hmem => (hplain _ hmem).2 rfl
  unfold Disk.readJson
  rw [h]
  simp [hmarked, hunified, hread, Except.mapError, bind, Except.bind]

theorem readJson_fileText {path : Path} (hreadable : Readable disk.around.nesting (.object fields))
    (h : disk.read path.text = .ok (Utf8.encode (fileText fields))) : disk.readJson path = .ok (.object fields) :=
  readJson_written hreadable.fits h

/-- A table can be read back that has only some of the routes of one that was read. -/
theorem readable_withRoutes (hread : disk.readJson table.file = .ok (.object fields))
    (hroutes : Value.fieldD fields "routes" = .list routes) (hwhole : ¬ (Value.object fields).HoldsFloat) (paths : List Text) :
    Value.putField "routes" (.list (unlisted paths routes)) fields = withRoutes (unlisted paths routes) fields ∧
      Readable disk.around.nesting (.object (withRoutes (unlisted paths routes) fields)) := by
  obtain ⟨t, ht⟩ := Disk.text_of_readJson hread
  obtain ⟨hroom, hnodup, hfields⟩ := Json.readable_of_read ht hwhole
  have hmem := Value.mem_of_fieldD hroutes nofun
  have hput : Value.putField "routes" (.list (unlisted paths routes)) fields = withRoutes (unlisted paths routes) fields :=
    putField_eq_withValue hnodup (List.mem_map_of_mem hmem)
  have hlist : Readable (disk.around.nesting - 1) (.list (unlisted paths routes)) := by
    obtain ⟨hroom', hitems⟩ := Json.readableFields_iff.1 hfields _ hmem
    exact ⟨hroom', Json.readableItems_iff.2 fun v hv => Json.readableItems_iff.1 hitems v (List.mem_filter.1 hv).1⟩
  refine ⟨hput, hroom, hput ▸ Value.nodup_putField hnodup, Json.readableFields_iff.2 fun f hf => ?_⟩
  rw [← hput] at hf
  rcases Value.mem_putField hf with rfl | hf
  · exact hlist
  · exact Json.readableFields_iff.1 hfields f hf

/-! ## The deletion -/

theorem hashable_texts (paths : List Text) : (paths.map Value.text).forM Value.hashable = .ok () := by
  refine hashable_all fun p hp => ?_
  obtain ⟨t, -, rfl⟩ := List.mem_map.1 hp
  rfl

theorem hasPath_texts (paths : List Text) {v : Value}
    (h : ∀ route, v = .object route → (Value.fieldD route "path").hashable = .ok ()) :
    hasPath (paths.map .text) v = .ok (isListed paths v) := by
  rw [← listed_texts]
  cases v with
  | object route =>
    simp only [hasPath, Value.memberOf, h route rfl]
    rfl
  | _ => rfl

/-- Routes are deleted from a table that can be walked over by replacing its file. -/
theorem delete_walked (hfields : table.fields disk = .ok fields) {entries : List Value}
    (hitems : (routesOf fields).items = .ok entries)
    (hpath : ∀ route, .object route ∈ entries → (Value.fieldD route "path").hashable = .ok ()) {beside : Path}
    (hbeside : table.file.withExtension? ".tmp" = some beside) (paths : List Text) :
    table.delete (paths.map .text) disk = (do
      FileWork.replaceFile beside table.file (fileText (Value.putField "routes" (.list (unlisted paths entries)) fields))
      return entries.countP (isListed paths) : FileWork Nat) disk := by
  have hlisted : entries.mapM (hasPath (paths.map .text)) = .ok (entries.map (isListed paths)) := by
    rw [mapM_ok, List.forall₂_map_right_iff, List.forall₂_same]
    intro v hv
    exact hasPath_texts paths fun route he => hpath route (he ▸ hv)
  have hkept : entries.length - (unlisted paths entries).length = entries.countP (isListed paths) :=
    length_sub_filter (isListed paths) entries
  rw [← hkept]
  unfold fileText unlisted
  simp only [delete, bind, EStateM.bind, FileWork.ask, hashable_texts, hfields, hitems, hlisted, Except.mapError, zip_filter,
    hbeside]

/-- The file of a table is replaced by one with the routes that are kept. -/
theorem delete_replaces (hdisk : disk.Sound) (hfile : table.file.Normal) (hread : disk.readJson table.file = .ok (.object fields))
    (hroutes : Value.fieldD fields "routes" = .list routes) (hwhole : ¬ (Value.object fields).HoldsFloat)
    (hpaths : ∀ route, .object route ∈ routes → TextField route "path")
    (hfree : ∀ beside, table.file.withExtension? ".tmp" = some beside → disk.BesideFree table.file beside) (paths : List Text) :
    ∃ disk' bytes spot, table.delete (paths.map .text) disk = .ok (routes.countP (isListed paths)) disk' ∧
      disk'.readJson table.file = .ok (.object (withRoutes (unlisted paths routes) fields)) ∧
      disk.Replaced disk' table.file.text bytes spot ∧ disk'.Sound ∧
      ∀ beside, table.file.withExtension? ".tmp" = some beside → disk'.BesideFree table.file beside := by
  obtain ⟨place, b, hx⟩ := Disk.found_of_readJson hread
  obtain ⟨front, n, hpath, -⟩ := Disk.name_of_noFolder hdisk.grounded hfile hx nofun
  obtain ⟨beside, hbeside⟩ : ∃ beside, table.file.withExtension? ".tmp" = some beside := by
    rw [hpath]
    exact ⟨_, Path.withExtension?_concat ..⟩
  obtain ⟨hput, hreadable⟩ := readable_withRoutes hread hroutes hwhole paths
  obtain ⟨disk', spot, hrun, hreplaced, hagain, hsound⟩ := Disk.replaceFile_replaces hdisk hfile (by decide) (by decide)
    hbeside hx (hfree beside hbeside) (fileText (withRoutes (unlisted paths routes) fields))
  have hreadable' : Readable disk'.around.nesting (.object (withRoutes (unlisted paths routes) fields)) :=
    hreplaced.around_eq ▸ hreadable
  refine ⟨disk', _, spot, ?_, readJson_fileText hreadable' (Disk.read_ok.2 ⟨spot, hreplaced.stands⟩), hreplaced, hsound, ?_⟩
  · have hitems : (routesOf fields).items = .ok routes := by rw [routesOf_list hroutes]; rfl
    rw [← hput] at hrun
    rw [delete_walked (fields_of_readJson hread) hitems (fun route hroute => (hpaths route hroute).hashable) hbeside paths]
    simp only [bind, EStateM.bind, hrun]
    rfl
  · intro other hother
    rw [hbeside] at hother
    cases hother
    exact hagain

/-- Where the same is there, the same routes are dead. -/
theorem dead?_congr (h : ∀ t, disk'.present t = disk.present t) : table.dead? disk' = table.dead? disk := by
  funext v
  cases v with
  | object route => simp only [dead?, issues, missing, h]
  | _ => rfl

/-- A check of some of the routes reports those of the dead ones that are among them. -/
theorem filterMap_dead {P : Value → Bool} {Q : DeadRoute → Bool}
    (hPQ : ∀ v d, table.dead? disk v = .ok (some d) → P v = Q d) :
    ∀ {routes : List Value} {dead : List (Option DeadRoute)}, List.Forall₂ (fun v d => table.dead? disk v = .ok d) routes dead →
      ∃ dead', List.Forall₂ (fun v d => table.dead? disk v = .ok d) (routes.filter P) dead' ∧
        dead'.filterMap id = (dead.filterMap id).filter Q
  | _, _, .nil => ⟨[], .nil, rfl⟩
  | v :: routes, d :: dead, .cons hd h => by
    obtain ⟨dead', h', hdead⟩ := filterMap_dead hPQ h
    cases hv : P v with
    | false =>
      refine ⟨dead', by rwa [List.filter_cons_of_neg (by simp [hv])], ?_⟩
      cases d with
      | none => exact hdead
      | some d =>
        show _ = (d :: dead.filterMap id).filter Q
        rw [List.filter_cons_of_neg (by simp [← hPQ v d hd, hv]), hdead]
    | true =>
      refine ⟨d :: dead', by rw [List.filter_cons_of_pos hv]; exact .cons hd h', ?_⟩
      cases d with
      | none => exact hdead
      | some d =>
        show d :: dead'.filterMap id = (d :: dead.filterMap id).filter Q
        rw [List.filter_cons_of_pos (by rw [← hPQ v d hd, hv]), hdead]

/-- When routes are deleted by their paths, the number of those that had one of the paths is answered; the file of the table
holds all that it held before but them, in the same order; and nothing else has changed. To delete them again removes
nothing. If the path of the table is that of the file itself, a check that went well before goes well again: it counts the
routes that are left, and reports those as dead that were dead before and did not have one of the paths. -/
theorem delete_exact (hdisk : disk.Sound) (hfile : table.file.Normal) (hread : disk.readJson table.file = .ok (.object fields))
    (hroutes : Value.fieldD fields "routes" = .list routes) (hwhole : ¬ (Value.object fields).HoldsFloat)
    (hpaths : ∀ route, .object route ∈ routes → TextField route "path")
    (hfree : ∀ beside, table.file.withExtension? ".tmp" = some beside → disk.BesideFree table.file beside) (paths : List Text) :
    ∃ n disk', table.delete (paths.map .text) disk = .ok n disk' ∧ n = routes.countP (isListed paths) ∧
      disk'.readJson table.file = .ok (.object (withRoutes (unlisted paths routes) fields)) ∧
      (∃ bytes spot, disk.Replaced disk' table.file.text bytes spot) ∧
      (∃ disk'', table.delete (paths.map .text) disk' = .ok 0 disk'') ∧
      ((∃ place b, disk.resolve .entry table.file.text = .ok (.found place (.file b))) →
        ∀ s, table.scan disk = .ok s → ∃ s', table.scan disk' = .ok s' ∧ s'.found = s.found ∧ s'.total + n = s.total ∧
          s'.dead = s.dead.filter fun d => !isOneOf paths d.path) := by
  obtain ⟨disk', bytes, spot, hrun, hread', hreplaced, hsound, hfree'⟩ :=
    delete_replaces hdisk hfile hread hroutes hwhole hpaths hfree paths
  have hmem : ("routes" : Text) ∈ fields.map (·.1) := List.mem_map_of_mem (Value.mem_of_fieldD hroutes nofun)
  obtain ⟨-, hreadable⟩ := readable_withRoutes hread hroutes hwhole paths
  have hroutes' : Value.fieldD (withRoutes (unlisted paths routes) fields) "routes" =
      .list (unlisted paths routes) := fieldD_withValue hmem
  refine ⟨_, disk', hrun, rfl, hread', ⟨bytes, spot, hreplaced⟩, ?_, ?_⟩
  · -- none of the routes that are left has one of the paths
    have hwhole' : ¬ (Value.object (withRoutes (unlisted paths routes) fields)).HoldsFloat :=
      fun hfloat => Json.not_readable_of_float hfloat hreadable
    have hpaths' : ∀ route, .object route ∈ unlisted paths routes → TextField route "path" :=
      fun route hroute => hpaths route (List.mem_filter.1 hroute).1
    have hnone : (unlisted paths routes).countP (isListed paths) = 0 := by
      rw [List.countP_eq_zero]
      intro v hv
      simpa using (List.mem_filter.1 hv).2
    obtain ⟨disk'', _, _, hrun', -⟩ := delete_replaces hsound hfile hread' hroutes' hwhole' hpaths' hfree' paths
    exact ⟨disk'', hnone ▸ hrun'⟩
  · rintro ⟨place, b, hentry⟩ s hscan
    have hpresent : ∀ t, disk'.present t = disk.present t := by
      rw [hreplaced.disk_eq]
      exact Disk.present_alike (hreplaced.alike hentry)
    obtain ⟨dead, hdead, rfl⟩ := (scan_ok (Disk.present_of_readJson hread) hread (routesOf_list hroutes)).1 hscan
    have hlisted : ∀ v d, table.dead? disk v = .ok (some d) → (!isListed paths v) = !isOneOf paths d.path := by
      intro v d hd
      rw [dead?_route hd, dead?_path hd]
      rfl
    obtain ⟨dead', hdead', hfilter⟩ := filterMap_dead hlisted hdead
    rw [← dead?_congr hpresent] at hdead'
    refine ⟨_, (scan_ok (Disk.present_of_readJson hread') hread' (routesOf_list hroutes')).2 ⟨dead', hdead', rfl⟩, rfl, ?_, hfilter⟩
    have hlength : routes.length - (unlisted paths routes).length = _ := length_sub_filter (isListed paths) routes
    have hle : (unlisted paths routes).length ≤ routes.length := List.length_filter_le ..
    show (unlisted paths routes).length + routes.countP (isListed paths) = routes.length
    omega

end RouteTable

namespace Sample

/-- A table with a route to a page that does not exist, a route that names nothing, and a field more. -/
def routedFields : List (Text × Value) :=
  [("routes", .list [.object [("path", .text "/r"), ("page", .text "x")], .object [("path", .text "/s")]]), ("version", .int 1)]

theorem readable_routedFields : Readable Surroundings.standardNesting (.object routedFields) := by
  have hnames : (["routes", "version"] : List Text).Nodup := by decide
  have hnames' : (["path", "page"] : List Text).Nodup := by decide
  have hfirst : Readable (Surroundings.standardNesting - 2) (.object [("path", .text "/r"), ("page", .text "x")]) :=
    ⟨by decide, hnames', trivial, trivial, trivial⟩
  have hsecond : Readable (Surroundings.standardNesting - 2) (.object [("path", .text "/s")]) :=
    ⟨by decide, List.nodup_singleton _, trivial, trivial⟩
  have hone : (Text.ofNat (1 : Int).natAbs).length ≤ numeralLimit := by decide
  exact ⟨by decide, hnames, ⟨by decide, hfirst, hsecond, trivial⟩, hone, trivial⟩

/-- A project with that table under some name. -/
def namedTableDisk (name : Text) : Disk := settingsDisk (file name (RouteTable.fileText routedFields) .empty)

def namedTable (name : Text) : RouteTable := .new project ("app/config/" ++ name)

/-- A name that no name with a longer extension fits beside. -/
def longTableName : Text := List.replicate 252 'a' ++ ".x"

/-- Links to a page, each to the one before and the first to the table; the page is the last one. -/
def pageLinks (k : Nat) : Nat → Dir
  | 0 => .link "x.ejs" (List.replicate k 'l') .empty
  | n + 1 => .link (List.replicate (k + 1) 'l') (if k = 0 then "../app/config/routes.json" else List.replicate k 'l')
    (pageLinks (k + 1) n)

/-- A project whose table is a link, with a page to which more links lead than a path may pass. -/
def linkedTableDisk : Disk :=
  ⟨.folder "p" (.folder "app" (.folder "config" (file "r.json" (RouteTable.fileText routedFields)
    (.link "routes.json" "r.json" .empty)) .empty) (.folder "views" (pageLinks 0 39) .empty)) .empty, [], "/"⟩

end Sample

namespace RouteTable

/-- One of two routes is deleted, the one that was dead. -/
theorem sample_delete_exact : ∃ n disk' s s',
    Sample.table.delete [.text "/r"] (Sample.namedTableDisk "routes.json") = .ok n disk' ∧ n = 1 ∧
      disk'.readJson Sample.table.file =
        .ok (.object [("routes", .list [.object [("path", .text "/s")]]), ("version", .int 1)]) ∧
      Sample.table.scan (Sample.namedTableDisk "routes.json") = .ok s ∧ s.dead.length = 1 ∧
      Sample.table.scan disk' = .ok s' ∧ s'.total = 1 ∧ s'.dead = [] := by
  have hstands : (Sample.namedTableDisk "routes.json").resolve .entry Sample.table.file.text =
      .ok (.found ["p", "app", "config", "routes.json"] (.file (Utf8.encode (fileText Sample.routedFields)))) := by
    decide +kernel
  have hread : (Sample.namedTableDisk "routes.json").readJson Sample.table.file = .ok (.object Sample.routedFields) := by
    refine readJson_fileText Sample.readable_routedFields (Disk.read_ok.2 ⟨["p", "app", "config", "routes.json"], ?_⟩)
    decide +kernel
  have hpaths : ∀ route, .object route ∈ [Value.object [("path", .text "/r"), ("page", .text "x")],
      .object [("path", .text "/s")]] → TextField route "path" := by
    rintro _ (_ | ⟨_, _ | ⟨_, ⟨⟩⟩⟩)
    · exact .inr ⟨_, rfl⟩
    · exact .inr ⟨_, rfl⟩
  have hfree : ∀ beside, Sample.table.file.withExtension? ".tmp" = some beside →
      (Sample.namedTableDisk "routes.json").BesideFree Sample.table.file beside := by
    rintro beside hbeside -
    cases hbeside
    exact ⟨["p", "app", "config"], "routes.tmp", by decide +kernel⟩
  obtain ⟨s, hscan, htotal, hdead, hall⟩ : ∃ s, Sample.table.scan (Sample.namedTableDisk "routes.json") = .ok s ∧
      s.total = 2 ∧ s.dead.length = 1 ∧ s.dead.all (isOneOf ["/r"] ·.path) = true := Outcome.ok_of_check (by decide +kernel)
  obtain ⟨n, disk', hdelete, hn, hread', -, -, hrescan⟩ := delete_exact ⟨⟨_, rfl⟩, by decide +kernel⟩
    (by decide) hread rfl (fun hfloat => Json.not_readable_of_float hfloat Sample.readable_routedFields) hpaths hfree ["/r"]
  obtain ⟨s', hscan', -, hcount, hdead'⟩ := hrescan ⟨_, _, hstands⟩ s hscan
  have hone : n = 1 := hn
  refine ⟨n, disk', s, s', hdelete, hone, hread', hscan, hdead, hscan', by omega, ?_⟩
  rw [hdead', List.filter_eq_nil_iff]
  intro d hd
  have hlisted : isOneOf ["/r"] d.path = true := List.all_eq_true.1 hall d hd
  rw [hlisted]
  decide

/-- A table whose name leaves no room for a longer extension is not replaced, though there is nothing beside it. And if the
table is a link, a page that too many links lead to over it is found once the link is gone; so a route is no longer dead
that was dead before and was not deleted. -/
theorem long_name_not_replaced :
    (Sample.namedTableDisk Sample.longTableName).read (Sample.namedTable Sample.longTableName).file.text =
      .ok (Utf8.encode (fileText Sample.routedFields)) ∧
    (∀ beside ∈ (Sample.namedTable Sample.longTableName).file.withExtension? ".tmp",
      (Sample.namedTableDisk Sample.longTableName).isThere beside.text = false) ∧
    (∀ n disk', (Sample.namedTable Sample.longTableName).delete [.text "/r"] (Sample.namedTableDisk Sample.longTableName) ≠
      .ok n disk') ∧
    (Sample.table.scan Sample.linkedTableDisk).toOption.map (fun s => (s.total, s.dead.length)) = some (2, 1) ∧
    ∃ n disk', Sample.table.delete [.text "/s"] Sample.linkedTableDisk = .ok n disk' ∧ n = 1 ∧
      (Sample.table.scan disk').toOption.map (fun s => (s.total, s.dead.length)) = some (1, 0) := by
  have hfails : (match (Sample.namedTable Sample.longTableName).delete [.text "/r"]
      (Sample.namedTableDisk Sample.longTableName) with
      | .ok _ _ => false
      | .error _ _ => true) = true := by decide +kernel
  refine ⟨by decide +kernel, by decide +kernel, fun n disk' hdelete => ?_, by decide +kernel,
    Outcome.done_of_check (by decide +kernel)⟩
  rw [hdelete] at hfails
  cases hfails

end RouteTable

end ActionSweep
