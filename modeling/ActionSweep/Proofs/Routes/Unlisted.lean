/-
Deleting routes that are not there. Nothing is removed then, but the file of the table is written anew. It says the same
as before if the table has a list for its routes, or nothing; a text or an object there is replaced by the list of its
characters or names, and what the object has under them is lost.
-/
import ActionSweep.Proofs.Files.Landing
import ActionSweep.Proofs.Routes.Faults

namespace ActionSweep

open Json (Fits)

namespace RouteTable

variable {table : RouteTable} {disk disk' : Disk} {paths : List Text} {fields : List (Text × Value)} {entries : List Value}

/-- A table says the same as another one: it has the same fields, or an empty list where there was nothing for the routes. -/
def SameTable (fields left : List (Text × Value)) : Prop :=
  left = fields ∨ (Value.fieldD fields "routes").truthy = false ∧ left = Value.putField "routes" (.list []) fields

/-- A table has a list for its routes, or nothing. -/
def HasRouteList (fields : List (Text × Value)) : Prop :=
  (Value.fieldD fields "routes").truthy = true → ∃ routes, Value.fieldD fields "routes" = .list routes

/-- A list in the place of what is met for the routes says the same exactly if there was a list, or nothing. -/
theorem sameTable_iff (hitems : (routesOf fields).items = .ok entries) :
    SameTable fields (Value.putField "routes" (.list entries) fields) ↔ HasRouteList fields := by
  unfold routesOf at hitems
  constructor
  · rintro (hsame | ⟨hfalse, -⟩) htrue
    · exact ⟨entries, by rw [← hsame]; exact Value.fieldD_putField⟩
    · rw [htrue] at hfalse
      cases hfalse
  · intro hlist
    by_cases htrue : (Value.fieldD fields "routes").truthy = true
    · obtain ⟨routes, hroutes⟩ := hlist htrue
      rw [if_pos htrue, hroutes] at hitems
      cases hitems
      exact .inl (Value.putField_self (by rintro ⟨⟩) hroutes)
    · rw [if_neg htrue] at hitems
      cases hitems
      exact .inr ⟨Bool.eq_false_iff.2 htrue, rfl⟩

/-- What is met for the routes of a table that was read can be written in their place. -/
theorem fits_putRoutes {room : Nat} (hroom : 1 < room) (h : Fits room (.object fields)) (hitems : (routesOf fields).items = .ok entries) :
    Fits room (.object (Value.putField "routes" (.list entries) fields)) := by
  refine h.putField ?_
  unfold routesOf at hitems
  by_cases htrue : (Value.fieldD fields "routes").truthy = true
  · rw [if_pos htrue] at hitems
    have hthere : Value.fieldD fields "routes" ≠ .null := by
      intro hnull
      rw [hnull] at htrue
      cases htrue
    exact (Json.fitsFields_iff.1 h.2.2 _ (Value.mem_of_fieldD rfl hthere)).items (by omega) hitems
  · rw [if_neg htrue] at hitems
    cases hitems
    exact ⟨by omega, trivial⟩

theorem unlisted_none (h : ∀ v ∈ entries, isListed paths v = false) :
    unlisted paths entries = entries ∧ entries.countP (isListed paths) = 0 := by
  constructor
  · exact List.filter_eq_self.2 fun v hv => by rw [h v hv]; rfl
  · exact List.countP_eq_zero.2 fun v hv => by rw [h v hv]; decide

/-- A deletion that ended well has walked over what is there for the routes, and replaced the file. -/
theorem replaced_of_delete (hdisk : disk.Sound) (hfile : table.file.Normal)
    (hread : disk.readJson table.file = .ok (.object fields)) {n : Nat} (h : table.delete (paths.map .text) disk = .ok n disk') :
    ∃ entries beside, (routesOf fields).items = .ok entries ∧ table.file.withExtension? ".tmp" = some beside ∧
      (∀ route, .object route ∈ entries ↔ ∃ routes, Value.fieldD fields "routes" = .list routes ∧ .object route ∈ routes) ∧
      n = entries.countP (isListed paths) ∧ FileWork.replaceFile beside table.file
        (fileText (Value.putField "routes" (.list (unlisted paths entries)) fields)) disk = .ok () disk' := by
  obtain ⟨place, bytes, hx⟩ := Disk.found_of_readJson hread
  obtain ⟨t, ht⟩ := Disk.text_of_readJson hread
  have hfields := fields_of_readJson hread
  by_cases hwalk : Walkable fields
  swap
  · obtain ⟨kind, hitems, -⟩ := items_of_not_walkable hwalk
    rw [delete_not_walked hfields hitems] at h
    cases h
  obtain ⟨entries, hitems, hentries⟩ := items_of_walkable (Json.inText_fieldD ht "routes") hwalk
  have hpath : ∀ route, .object route ∈ entries → (Value.fieldD route "path").hashable = .ok () := by
    intro route hroute
    by_contra hhash
    obtain ⟨m, hm⟩ := delete_not_compared hfields hitems hroute hhash paths
    rw [hm] at h
    cases h
  obtain ⟨beside, hbeside⟩ := exists_beside hdisk.grounded hfile hx
  rw [delete_walked hfields hitems hpath hbeside] at h
  obtain ⟨⟨⟩, moment, hreplace, hend⟩ := Outcome.work_bind_ok.1 h
  cases hend
  exact ⟨entries, beside, hitems, hbeside, hentries, rfl, hreplace⟩

/-- A link beside the file of a table leads to that file. -/
def LedBack (table : RouteTable) (disk : Disk) : Prop :=
  ∃ beside place bytes, table.file.withExtension? ".tmp" = some beside ∧
    (∃ link u, disk.resolve .entry beside.text = .ok (.found link (.link u))) ∧
    disk.resolve .target beside.text = .ok (.found place (.file bytes)) ∧
    disk.resolve .target table.file.text = .ok (.found place (.file bytes))

/-- A file of a table that was replaced is read back, unless a link led back to it and now leads to nothing. -/
theorem readJson_replaced (hdisk : disk.Sound) (hfile : table.file.Normal) {v : Value} (hread : disk.readJson table.file = .ok v)
    {beside : Path} (hbeside : table.file.withExtension? ".tmp" = some beside) (hfits : Fits disk.around.nesting (.object fields))
    (h : FileWork.replaceFile beside table.file (fileText fields) disk = .ok () disk') :
    disk'.readJson table.file = .ok (.object fields) ∨
      table.LedBack disk ∧ ∀ place e, disk'.resolve .target table.file.text ≠ .ok (.found place e) := by
  obtain ⟨place, bytes, hx⟩ := Disk.found_of_readJson hread
  by_cases hfound : ∃ spot e, disk'.resolve .target table.file.text = .ok (.found spot e)
  · obtain ⟨spot, e, hfound⟩ := hfound
    obtain rfl := FileWork.replaceFile_leaves hdisk hfile (by decide) (by decide) hbeside h hfound
    have hfits' : Fits disk'.around.nesting (.object fields) := by
      rwa [FileWork.replaceFile_around h]
    exact .inl (readJson_written hfits' (Disk.read_ok.2 ⟨spot, hfound⟩))
  · push Not at hfound
    refine .inr ⟨?_, hfound⟩
    rcases FileWork.replaceFile_lands hdisk hfile (by decide) (by decide) hbeside hx h with ⟨spot, hspot⟩ | ⟨hlink, hled⟩
    · exact absurd hspot (hfound spot _)
    · exact ⟨beside, place, bytes, hbeside, hlink, hled, hx⟩

/-- A deletion that ends well of routes that are not there removes nothing, and what is met for the routes is written in
their place, which says the same exactly if there was a list, or nothing. Only where a link leads back to the file of the
table it may be gone. -/
theorem delete_unlisted (hdisk : disk.Sound) (hfile : table.file.Normal) (hread : disk.readJson table.file = .ok (.object fields))
    (hnone : ∀ routes, Value.fieldD fields "routes" = .list routes → ∀ v ∈ routes, isListed paths v = false) {n : Nat}
    (h : table.delete (paths.map .text) disk = .ok n disk') :
    n = 0 ∧ ∃ entries left, (routesOf fields).items = .ok entries ∧ left = Value.putField "routes" (.list entries) fields ∧
      (SameTable fields left ↔ HasRouteList fields) ∧
      (disk'.readJson table.file = .ok (.object left) ∨
        table.LedBack disk ∧ ∀ place e, disk'.resolve .target table.file.text ≠ .ok (.found place e)) := by
  obtain ⟨entries, beside, hitems, hbeside, hentries, rfl, hreplace⟩ := replaced_of_delete hdisk hfile hread h
  have hunlisted : ∀ v ∈ entries, isListed paths v = false := by
    intro v hv
    cases v with
    | object route =>
      obtain ⟨routes, hroutes, hmem⟩ := (hentries route).1 hv
      exact hnone routes hroutes _ hmem
    | _ => rfl
  obtain ⟨hkept, hcount⟩ := unlisted_none hunlisted
  rw [hkept] at hreplace
  obtain ⟨t, ht⟩ := Disk.text_of_readJson hread
  have hroom : 1 < disk.around.nesting := Nat.lt_of_lt_of_le (by decide) disk.around.roomy
  exact ⟨hcount, entries, _, hitems, rfl, sameTable_iff hitems,
    readJson_replaced hdisk hfile hread hbeside (fits_putRoutes hroom (Json.fits_of_read ht) hitems) hreplace⟩

end RouteTable

namespace Sample

/-- A table with an object in the place of its routes. -/
def namedRoutes : List (Text × Value) := [("routes", .object [("a", .int 1)])]

theorem readable_namedRoutes : Json.Readable Surroundings.standardNesting (.object namedRoutes) := by
  have hone : (Text.ofNat (1 : Int).natAbs).length ≤ numeralLimit := by decide
  exact ⟨by decide, List.nodup_singleton _, ⟨by decide, List.nodup_singleton _, hone, trivial⟩, trivial⟩

end Sample

namespace RouteTable

/-- A table of two routes is the same after the deletion of a third. -/
theorem sample_delete_unlisted :
    (∀ routes, Value.fieldD Sample.routedFields "routes" = .list routes → ∀ v ∈ routes, isListed ["/x"] v = false) ∧
      (Sample.namedTableDisk "routes.json").readJson Sample.table.file = .ok (.object Sample.routedFields) ∧
      ∃ disk', Sample.table.delete [.text "/x"] (Sample.namedTableDisk "routes.json") = .ok 0 disk' ∧
        disk'.readJson Sample.table.file = .ok (.object Sample.routedFields) := by
  have hnone : ∀ routes, Value.fieldD Sample.routedFields "routes" = .list routes → ∀ v ∈ routes, isListed ["/x"] v = false := by
    rintro routes ⟨⟩ v hv
    rcases List.mem_cons.1 hv with rfl | hv
    · decide
    · rw [List.mem_singleton.1 hv]
      decide
  have hread : (Sample.namedTableDisk "routes.json").readJson Sample.table.file = .ok (.object Sample.routedFields) := by
    refine readJson_fileText Sample.readable_routedFields (Disk.read_ok.2 ⟨["p", "app", "config", "routes.json"], ?_⟩)
    decide +kernel
  obtain ⟨n, disk', hdelete, -⟩ : ∃ n disk', Sample.table.delete [.text "/x"] (Sample.namedTableDisk "routes.json") = .ok n disk' ∧
      True := Outcome.done_of_check (by decide +kernel)
  obtain ⟨rfl, entries, left, -, -, hsame, hafter⟩ := delete_unlisted ⟨⟨_, rfl⟩, by decide +kernel⟩ (by decide) hread hnone hdelete
  have hleft : left = Sample.routedFields :=
    (hsame.2 fun _ => ⟨_, rfl⟩).resolve_right fun h => absurd h.1 (by decide)
  have hfree : ∀ beside, Sample.table.file.withExtension? ".tmp" = some beside →
      (Sample.namedTableDisk "routes.json").resolve .entry beside.text = .ok (.free ["p", "app", "config"] "routes.tmp") := by
    rintro beside hbeside
    cases hbeside
    decide +kernel
  refine ⟨hnone, hread, disk', hdelete, hleft ▸ hafter.resolve_right ?_⟩
  rintro ⟨⟨beside, -, -, hbeside, ⟨link, u, hlink⟩, -⟩, -⟩
  rw [hfree beside hbeside] at hlink
  cases hlink

/-- An object in the place of the routes is replaced by the list of its names, though nothing was to be removed. -/
theorem named_routes_lost : ∃ n disk',
    (Sample.tableDisk (fileText Sample.namedRoutes)).readJson Sample.table.file = .ok (.object Sample.namedRoutes) ∧
    Sample.table.delete [] (Sample.tableDisk (fileText Sample.namedRoutes)) = .ok n disk' ∧ n = 0 ∧
    disk'.readJson Sample.table.file = .ok (.object [("routes", .list [.text "a"])]) ∧
    ¬ SameTable Sample.namedRoutes [("routes", .list [.text "a"])] := by
  have hread : (Sample.tableDisk (fileText Sample.namedRoutes)).readJson Sample.table.file = .ok (.object Sample.namedRoutes) := by
    refine readJson_fileText Sample.readable_namedRoutes (Disk.read_ok.2 ⟨["p", "app", "config", "routes.json"], ?_⟩)
    decide +kernel
  obtain ⟨n, disk', hdelete, hn, hafter⟩ : ∃ n disk', Sample.table.delete [] (Sample.tableDisk (fileText Sample.namedRoutes)) =
      .ok n disk' ∧ n = 0 ∧ disk'.resolve .target Sample.table.file.text = .ok (.found ["p", "app", "config", "routes.json"]
        (.file (Utf8.encode (fileText [("routes", .list [.text "a"])])))) := Outcome.done_of_check (by decide +kernel)
  have hroom : 2 ≤ disk'.around.nesting := Nat.le_trans (by decide) disk'.around.roomy
  have hreadable : Json.Readable disk'.around.nesting (.object [("routes", .list [.text "a"])]) :=
    ⟨by omega, List.nodup_singleton _, ⟨by omega, trivial, trivial⟩, trivial⟩
  refine ⟨n, disk', hread, hdelete, hn, readJson_fileText hreadable (Disk.read_ok.2 ⟨_, hafter⟩), ?_⟩
  rintro (hsame | ⟨hfalse, -⟩)
  · cases hsame
  · cases hfalse

end RouteTable

end ActionSweep
