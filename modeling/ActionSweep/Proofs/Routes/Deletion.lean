/-
Deleting dead routes. Routes are deleted by their paths, so all entries go that have their path in common
with a dead route. All dead routes are among them, and they are no others exactly if no live route has the
path of a dead one.
-/
import ActionSweep.Proofs.Files.Writing
import ActionSweep.Proofs.Routes.Table
import ActionSweep.Proofs.Sample
import ActionSweep.Proofs.Scan.ActionFiles

namespace ActionSweep

namespace RouteTable

open Outcome (bind_ok mapM_ok)
open ActionSweep.Path (IsPart)

variable {table : RouteTable} {disk : Disk}

/-! ## Paths of routes -/

theorem TextField.hashable {route : List (Text × Value)} {name : Text} (h : TextField route name) :
    (Value.fieldD route name).hashable = .ok () := by
  rcases h with h | ⟨t, h⟩
  · rw [h]
    rfl
  · rw [h]
    rfl

/-- Texts, and what is absent, are the same only if they are equal. -/
theorem TextField.same_iff {route other : List (Text × Value)} {name : Text} (h : TextField route name)
    (h' : TextField other name) :
    (Value.fieldD route name).same (Value.fieldD other name) = true ↔ Value.fieldD route name = Value.fieldD other name := by
  rcases h with h | ⟨t, h⟩
  · rcases h' with h' | ⟨u, h'⟩
    · simp [h, h', Value.same, Value.sameScalar]
    · simp [h, h', Value.same, Value.sameScalar, Value.wholeNumber?]
  · rcases h' with h' | ⟨u, h'⟩
    · simp [h, h', Value.same, Value.sameScalar, Value.wholeNumber?]
    · simp [h, h', Value.same, Value.sameScalar]

/-- Whether an entry is a route with one of some paths. -/
def listed (paths : List Value) : Value → Bool
  | .object route => paths.any (·.same (Value.fieldD route "path"))
  | _ => false

theorem hasPath_eq (paths : List Value) {v : Value} (h : ∀ route, v = .object route → TextField route "path") :
    hasPath paths v = .ok (listed paths v) := by
  cases v with
  | object route =>
    have hhash := (h route rfl).hashable
    simp only [hasPath, Value.memberOf, hhash]
    rfl
  | _ => rfl

/-! ## Deleting by path -/

/-- The text of a table file. -/
def fileText (fields : List (Text × Value)) : Text := Json.render (.object fields) ++ ['\n']

/-- The file of a table can be replaced. -/
def Replaceable (table : RouteTable) (disk : Disk) : Prop :=
  ∀ beside, table.file.withExtension? ".tmp" = some beside → disk.FreeForFile beside.text

theorem routesOf_list {fields : List (Text × Value)} {routes : List Value}
    (h : Value.fieldD fields "routes" = .list routes) : routesOf fields = .list routes := by
  unfold routesOf
  rw [h]
  cases routes with
  | nil => rfl
  | cons v routes => rfl

theorem zip_filter {α : Type} (p : α → Bool) : ∀ l : List α,
    ((l.zip (l.map p)).filter (!·.2)).map (·.1) = l.filter fun a => !p a
  | [] => rfl
  | a :: l => by
    have ih := zip_filter p l
    cases hp : p a with
    | false => simp [hp, ih]
    | true => simp [hp, ih]

theorem length_sub_filter {α : Type} (p : α → Bool) (l : List α) :
    l.length - (l.filter fun a => !p a).length = l.countP p := by
  have h := List.length_eq_countP_add_countP p (l := l)
  have hkept : (l.filter fun a => !p a).length = l.countP (fun a => decide ¬ p a = true) := by
    simp [List.countP_eq_length_filter]
  omega

theorem hashable_all : ∀ {paths : List Value}, (∀ p ∈ paths, p.hashable = .ok ()) → paths.forM Value.hashable = .ok ()
  | [], _ => rfl
  | p :: paths, h => by
    show (p.hashable >>= fun _ => paths.forM Value.hashable) = _
    exact bind_ok.2 ⟨(), h p (List.mem_cons_self ..), hashable_all fun q hq => h q (List.mem_cons_of_mem p hq)⟩

/-- The file of a table that can be read is replaced. -/
theorem replace_ok (hdisk : disk.Grounded) (hfile : table.file.Normal) {v : Value}
    (hread : disk.readJson table.file = .ok v) (hfree : table.Replaceable disk) (t : Text) :
    ∃ beside root', table.file.withExtension? ".tmp" = some beside ∧
      FileWork.replaceFile beside table.file t disk = .ok () (disk.setRoot root') ∧
      (disk.setRoot root').read table.file.text = .ok (Utf8.encode t) := by
  obtain ⟨spot, b, hx⟩ := Disk.found_of_readJson hread
  obtain ⟨front, n, hpath, -⟩ := Disk.name_of_noFolder hdisk hfile hx (by rintro _ _ ⟨⟩)
  have hbeside : table.file.withExtension? ".tmp" = some ⟨table.file.anchor, front ++ [Path.stem n ++ ".tmp"]⟩ := by
    rw [hpath]
    exact Path.withExtension?_concat ..
  have hreplaceable : disk.Replaceable table.file ".tmp" := ⟨⟨_, hx, by rintro _ _ ⟨⟩⟩, hfree⟩
  obtain ⟨root', hrun, hread', -⟩ := hreplaceable.replaceFile hdisk hfile (by decide) (by decide) hbeside t
  exact ⟨_, root', hbeside, hrun, hread'⟩

/-- All entries with the paths are removed, and the others are kept in their order. -/
theorem delete_ok (hdisk : disk.Grounded) (hfile : table.file.Normal) {fields : List (Text × Value)} {routes : List Value}
    (hread : disk.readJson table.file = .ok (.object fields)) (hroutes : routesOf fields = .list routes)
    (hpaths : ∀ route, .object route ∈ routes → TextField route "path") (hfree : table.Replaceable disk)
    {paths : List Value} (hhash : ∀ p ∈ paths, p.hashable = .ok ()) :
    ∃ root', table.delete paths disk = .ok (routes.countP (listed paths)) (disk.setRoot root') ∧
      (disk.setRoot root').read table.file.text = .ok (Utf8.encode
        (fileText (Value.putField "routes" (.list (routes.filter fun v => !listed paths v)) fields))) := by
  obtain ⟨beside, root', hbeside, hrun, hread'⟩ := replace_ok hdisk hfile hread hfree
    (fileText (Value.putField "routes" (.list (routes.filter fun v => !listed paths v)) fields))
  refine ⟨root', ?_, hread'⟩
  have hfields := fields_of_readJson hread
  have hlisted : routes.mapM (hasPath paths) = .ok (routes.map (listed paths)) := by
    rw [mapM_ok, List.forall₂_map_right_iff, List.forall₂_same]
    exact fun v hv => hasPath_eq paths fun route he => hpaths route (he ▸ hv)
  unfold fileText at hrun
  simp only [delete, bind, EStateM.bind, FileWork.ask, hashable_all hhash, hfields, hroutes, Value.items, hlisted,
    Except.mapError, zip_filter, hbeside, hrun, length_sub_filter]
  rfl

/-! ## Deleting what is dead -/

/-- Whether an entry has its path in common with one of some dead routes. -/
def sharesPath (dead : List DeadRoute) : Value → Bool
  | .object route => dead.any fun d => d.path.same (Value.fieldD route "path")
  | _ => false

theorem listed_dead (dead : List DeadRoute) (v : Value) : listed (dead.map (·.path)) v = sharesPath dead v := by
  cases v with
  | object route => exact List.any_map
  | _ => rfl

/-- Whether a check finds nothing missing at an entry. -/
def isLive (table : RouteTable) (disk : Disk) (v : Value) : Bool :=
  match table.dead? disk v with
  | .ok none => true
  | _ => false

theorem isLive_eq {v : Value} {d : Option DeadRoute} (h : table.dead? disk v = .ok d) :
    table.isLive disk v = d.isNone := by
  unfold isLive
  rw [h]
  cases d with
  | none => rfl
  | some d => rfl

/-- The dead routes are the entries that are not live, in their order. -/
theorem dead_routes {routes : List Value} {found : List (Option DeadRoute)}
    (h : List.Forall₂ (fun v d => table.dead? disk v = .ok d) routes found) :
    (found.filterMap id).map (fun d => .object d.route) = routes.filter fun v => !table.isLive disk v := by
  induction h with
  | nil => rfl
  | @cons v d routes found hd _ ih =>
    rw [List.filter_cons, isLive_eq hd, ← ih]
    cases d with
    | none => rfl
    | some d => rw [dead?_route hd]; rfl

theorem length_dead {routes : List Value} {found : List (Option DeadRoute)}
    (h : List.Forall₂ (fun v d => table.dead? disk v = .ok d) routes found) :
    (found.filterMap id).length = routes.countP fun v => !table.isLive disk v := by
  rw [List.countP_eq_length_filter, ← dead_routes h, List.length_map]

theorem mem_dead {routes : List Value} {found : List (Option DeadRoute)}
    (h : List.Forall₂ (fun v d => table.dead? disk v = .ok d) routes found) {d : DeadRoute} :
    d ∈ found.filterMap id ↔ ∃ v ∈ routes, table.dead? disk v = .ok (some d) := by
  rw [List.mem_filterMap]
  constructor
  · rintro ⟨_, hmem, rfl⟩
    exact forall₂_mem_right h hmem
  · rintro ⟨v, hv, hd⟩
    obtain ⟨x, hx, hd'⟩ := forall₂_mem_left h hv
    obtain rfl : x = some d := Except.ok.inj (hd'.symm.trans hd)
    exact ⟨some d, hx, rfl⟩

/-- A route that can be checked and deleted: its path and exec are texts as far as they are there, and every
file that it names can be asked about. -/
structure Checkable (table : RouteTable) (disk : Disk) (route : List (Text × Value)) : Prop where
  path : TextField route "path"
  exec : TextField route "exec"
  asks : Asks table disk route

variable {routes : List Value}

theorem sharesPath_iff {dead : List DeadRoute} (hdead : ∀ d ∈ dead, d.path = Value.fieldD d.route "path" ∧
    TextField d.route "path") {route : List (Text × Value)} (h : TextField route "path") :
    sharesPath dead (.object route) = true ↔ ∃ d ∈ dead, d.path = Value.fieldD route "path" := by
  unfold sharesPath
  rw [List.any_eq_true]
  refine exists_congr fun d => and_congr_right fun hd => ?_
  obtain ⟨hpath, htext⟩ := hdead d hd
  rw [hpath]
  exact htext.same_iff h

theorem dead?_runs (hcheck : ∀ route, .object route ∈ routes → Checkable table disk route) {v : Value} (hv : v ∈ routes) :
    ∃ d, table.dead? disk v = .ok d := by
  cases v with
  | object route =>
    obtain ⟨found, hfound⟩ := (issues_runs_iff (hcheck route hv).exec).2 (hcheck route hv).asks
    exact ⟨_, dead?_object hfound⟩
  | _ => exact ⟨none, rfl⟩

/-- The dead routes of a table whose routes can be checked have texts as paths, or none. -/
theorem dead_path (hcheck : ∀ route, .object route ∈ routes → Checkable table disk route)
    {found : List (Option DeadRoute)} (hfound : List.Forall₂ (fun v d => table.dead? disk v = .ok d) routes found) :
    ∀ d ∈ found.filterMap id, d.path = Value.fieldD d.route "path" ∧ TextField d.route "path" := by
  intro d hd
  obtain ⟨v, hv, hd⟩ := (mem_dead hfound).1 hd
  have hpath := dead?_path hd
  obtain rfl := dead?_route hd
  exact ⟨hpath, (hcheck _ hv).path⟩

theorem sharesPath_of_not_live (hcheck : ∀ route, .object route ∈ routes → Checkable table disk route)
    {found : List (Option DeadRoute)} (hfound : List.Forall₂ (fun v d => table.dead? disk v = .ok d) routes found)
    {v : Value} (hv : v ∈ routes) (hlive : table.isLive disk v = false) :
    sharesPath (found.filterMap id) v = true := by
  obtain ⟨d, hd⟩ := dead?_runs hcheck hv
  rw [isLive_eq hd] at hlive
  cases d with
  | none => cases hlive
  | some d =>
    have hmem := (mem_dead hfound).2 ⟨v, hv, hd⟩
    have hpaths := dead_path hcheck hfound
    obtain rfl := dead?_route hd
    exact (sharesPath_iff hpaths (hcheck _ hv).path).2 ⟨d, hmem, (hpaths d hmem).1⟩

/-- What is left is what is live exactly if no live route has the path of a dead one. -/
theorem kept_live_iff (hcheck : ∀ route, .object route ∈ routes → Checkable table disk route)
    {found : List (Option DeadRoute)} (hfound : List.Forall₂ (fun v d => table.dead? disk v = .ok d) routes found) :
    (routes.filter fun v => !sharesPath (found.filterMap id) v) = routes.filter (table.isLive disk) ↔
      ∀ route, .object route ∈ routes → table.isLive disk (.object route) = true →
        ∀ d ∈ found.filterMap id, d.path ≠ Value.fieldD route "path" := by
  have hpaths := dead_path hcheck hfound
  constructor
  · intro hkept route hv hlive d hd he
    have hmem : .object route ∈ routes.filter fun v => !sharesPath (found.filterMap id) v := by
      rw [hkept]
      exact List.mem_filter.2 ⟨hv, hlive⟩
    rw [List.mem_filter, (sharesPath_iff hpaths (hcheck route hv).path).2 ⟨d, hd, he⟩] at hmem
    cases hmem.2
  · intro halone
    refine List.filter_congr fun v hv => ?_
    cases hlive : table.isLive disk v with
    | false => rw [sharesPath_of_not_live hcheck hfound hv hlive, Bool.not_true]
    | true =>
      cases v with
      | object route =>
        rw [Bool.not_eq_true', ← Bool.not_eq_true, sharesPath_iff hpaths (hcheck route hv).path]
        rintro ⟨d, hd, he⟩
        exact halone route hv hlive d hd he
      | _ => rfl

/-- Deleting the dead routes of a table removes all of them, and with them the live routes that have the path
of one; so it removes exactly the dead routes if and only if there are no such live routes. -/
theorem delete_dead (hdisk : disk.Grounded) (hfile : table.file.Normal) {fields : List (Text × Value)}
    (hread : disk.readJson table.file = .ok (.object fields)) (hroutes : Value.fieldD fields "routes" = .list routes)
    (hcheck : ∀ route, .object route ∈ routes → Checkable table disk route) (hfree : table.Replaceable disk) :
    ∃ s n kept disk', table.scan disk = .ok s ∧ table.delete (s.dead.map (·.path)) disk = .ok n disk' ∧
      disk'.read table.file.text = .ok (Utf8.encode (fileText (Value.putField "routes" (.list kept) fields))) ∧
      kept = routes.filter (fun v => !sharesPath s.dead v) ∧ n = routes.countP (sharesPath s.dead) ∧
      (∀ v ∈ routes, table.isLive disk v = false → sharesPath s.dead v = true) ∧
      (kept = routes.filter (table.isLive disk) ∧ n = s.dead.length ↔ ∀ route, .object route ∈ routes →
        table.isLive disk (.object route) = true → ∀ d ∈ s.dead, d.path ≠ Value.fieldD route "path") := by
  have hroutes' := routesOf_list hroutes
  obtain ⟨found, hfound⟩ := Outcome.mapM_runs fun v hv => dead?_runs hcheck hv
  rw [mapM_ok] at hfound
  have hpaths := dead_path hcheck hfound
  have hhash : ∀ p ∈ (found.filterMap id).map (·.path), p.hashable = .ok () := by
    intro p hp
    obtain ⟨d, hd, rfl⟩ := List.mem_map.1 hp
    rw [(hpaths d hd).1]
    exact (hpaths d hd).2.hashable
  obtain ⟨root', hrun, hread'⟩ := delete_ok hdisk hfile hread hroutes' (fun route hv => (hcheck route hv).path) hfree hhash
  rw [funext (listed_dead (found.filterMap id))] at hrun hread'
  refine ⟨_, _, _, _, (scan_ok (Disk.present_of_readJson hread) hread hroutes').2 ⟨found, hfound, rfl⟩, hrun, hread',
    rfl, rfl, fun v hv => sharesPath_of_not_live hcheck hfound hv, ?_⟩
  rw [← kept_live_iff hcheck hfound, and_iff_left_of_imp]
  intro hkept
  -- what was removed was not live, and that is what is dead
  rw [length_dead hfound, ← length_sub_filter (sharesPath (found.filterMap id)), hkept]
  have hcount := length_sub_filter (fun v => !table.isLive disk v) routes
  simpa only [Bool.not_not] using hcount

/-- Whether a document is a table whose routes can be checked. -/
def canCheck (table : RouteTable) (disk : Disk) : Value → Bool
  | .object fields =>
    match Value.fieldD fields "routes" with
    | .list routes => routes.all fun v =>
      match v with
      | .object route => decide (TextField route "path" ∧ TextField route "exec") && (table.issues disk route).isOk
      | _ => true
    | _ => false
  | _ => false

theorem checkable_of_canCheck {v : Value} (h : table.canCheck disk v = true) : ∃ fields routes, v = .object fields ∧
    Value.fieldD fields "routes" = .list routes ∧ ∀ route, .object route ∈ routes → Checkable table disk route := by
  unfold canCheck at h
  split at h
  · rename_i fields
    split at h
    · rename_i routes hroutes
      refine ⟨fields, routes, rfl, hroutes, fun route hv => ?_⟩
      have hroute := List.all_eq_true.1 h _ hv
      simp only [Bool.and_eq_true, decide_eq_true_eq] at hroute
      obtain ⟨⟨hpath, hexec⟩, hok⟩ := hroute
      refine ⟨hpath, hexec, (issues_runs_iff hexec).1 ?_⟩
      cases hissues : table.issues disk route with
      | ok found => exact ⟨found, rfl⟩
      | error f => rw [hissues] at hok; cases hok
    · cases h
  · cases h

/-- Of two routes with different paths the dead one is deleted. -/
theorem sample_delete_dead :
    ∃ s n disk', Sample.table.scan (Sample.deadRouteDisk "/s" .empty) = .ok s ∧ s.total = 2 ∧ s.dead.length = 1 ∧
      Sample.table.delete (s.dead.map (·.path)) (Sample.deadRouteDisk "/s" .empty) = .ok n disk' ∧
      ∃ fields kept, kept.length + n = 2 ∧ disk'.read Sample.table.file.text =
        .ok (Utf8.encode (fileText (Value.putField "routes" (.list kept) fields))) := by
  have hread : ∃ v, (Sample.deadRouteDisk "/s" .empty).readJson Sample.table.file = .ok v ∧
      Sample.table.canCheck (Sample.deadRouteDisk "/s" .empty) v = true := Outcome.ok_of_check (by decide +kernel)
  have hscan : ∃ s, Sample.table.scan (Sample.deadRouteDisk "/s" .empty) = .ok s ∧ s.total = 2 ∧ s.dead.length = 1 :=
    Outcome.ok_of_check (by decide +kernel)
  obtain ⟨v, hv, hcheck⟩ := hread
  obtain ⟨fields, routes, rfl, hroutes, hcheck⟩ := checkable_of_canCheck hcheck
  obtain ⟨s, hs, htotal, hdead⟩ := hscan
  have hfree : Sample.table.Replaceable (Sample.deadRouteDisk "/s" .empty) := by
    intro beside hbeside
    cases hbeside
    exact ⟨.free ["p", "app", "config"] "routes.tmp", rfl, by rintro _ _ ⟨⟩⟩
  obtain ⟨s', n, kept, disk', hs', hdelete, hread', hkept, hn, -⟩ :=
    delete_dead ⟨_, rfl⟩ (by decide) hv hroutes hcheck hfree
  obtain rfl : s' = s := Except.ok.inj (hs'.symm.trans hs)
  refine ⟨s', n, disk', hs, htotal, hdead, hdelete, fields, kept, ?_, hread'⟩
  have hlength : routes.length = 2 := by
    obtain ⟨found, -, rfl⟩ := (scan_ok (Disk.present_of_readJson hv) hv (routesOf_list hroutes)).1 hs
    exact htotal
  have hsub := length_sub_filter (sharesPath s'.dead) routes
  have hle := List.length_filter_le (fun v => !sharesPath s'.dead v) routes
  rw [hkept, hn]
  omega

/-- What deleting the dead routes of a sample comes to: the routes that are dead, those that are removed, and
the text of the table afterwards, as far as it can be read. -/
def outcome (disk : Disk) : Option (Nat × Except Unit (Nat × Option Bytes)) :=
  match Sample.table.scan disk with
  | .error _ => none
  | .ok s => some (s.dead.length, match Sample.table.delete (s.dead.map (·.path)) disk with
    | .error _ _ => .error ()
    | .ok n disk' => .ok (n, (disk'.read Sample.table.file.text).toOption))

/-- One of two routes with the same path is dead, and both are deleted. With a folder at the place of the file
that is written beside the table, nothing can be deleted; with a link from there to the table, the table is
lost. A page whose name is too long cannot be asked about. -/
theorem shared_path_deleted :
    outcome (Sample.deadRouteDisk "/r" .empty) = some (1, .ok (2, some (Utf8.encode "\x7b\n  \"routes\": []\n\x7d\n"))) ∧
    outcome (Sample.deadRouteDisk "/s" (.folder "routes.tmp" .empty .empty)) = some (1, .error ()) ∧
    outcome (Sample.deadRouteDisk "/s" (.link "routes.tmp" "routes.json" .empty)) = some (1, .ok (1, none)) ∧
    outcome (Sample.settingsDisk (Sample.file "routes.json" (Sample.twoRoutes (List.replicate 256 'x') "/s") .empty)) = none := by
  refine ⟨?_, ?_, ?_, ?_⟩
  · decide +kernel
  · decide +kernel
  · decide +kernel
  · decide +kernel

end RouteTable

end ActionSweep
