/-
The action folders themselves in a search for folders without files. The search begins with what is in an action folder, so
it does not find the folder from which it begins; but it finds it from another one, if the folder lies in that. So an action
folder is found exactly if it lies in another one and there are only folders in it, and no other one is removed with what
was found.
-/
import ActionSweep.Proofs.Folders.Deletion
import ActionSweep.Proofs.Folders.Found

namespace ActionSweep.EmptyFolders

variable {disk disk' : Disk} {project : Path} {roots : List Text} {root t : Text} {found : List EmptyFolder}
  {place : List Text} {r : FolderDeletion}

/-! ## What is found, wherever the action folders are -/

/-- What is found below one path are the folders without files in the folder to which it leads. -/
theorem mem_findBelow (hroot : disk.root.WellFormed) {p q : Path} (hp : p.Normal) {l : List Path}
    (hbelow : findBelow disk p = .ok l) : q ∈ l ↔ ∃ top d names, disk.resolve .target p.text = .ok (.found top (.folder d)) ∧
      names ≠ [] ∧ d.OnlyFoldersAt names ∧ q = ⟨p.anchor, p.parts ++ names⟩ := by
  rcases findBelow_ok.1 hbelow with ⟨hno, rfl⟩ | ⟨d, -, hlist, -, rfl⟩
  · refine iff_of_false List.not_mem_nil ?_
    rintro ⟨top, d, names, hresolve, -⟩
    unfold Disk.isFolder Disk.test at hno
    rw [hresolve] at hno
    cases hno
  · obtain ⟨top, hresolve⟩ := Disk.list_ok.1 hlist
    have hd := Disk.wellFormed_of_resolve hroot hp hresolve
    rw [Dir.mem_emptyFolders hd]
    constructor
    · rintro ⟨names, inside, hne, hinside, hempty, hq⟩
      exact ⟨top, d, names, hresolve, hne, (Dir.onlyFoldersAt_iff hd).2 ⟨inside, hinside, hempty⟩, hq⟩
    · rintro ⟨top', d', names, hresolve', hne, honly, hq⟩
      rw [hresolve] at hresolve'
      cases hresolve'
      obtain ⟨inside, hinside, hempty⟩ := (Dir.onlyFoldersAt_iff hd).1 honly
      exact ⟨names, inside, hne, hinside, hempty, hq⟩

/-- The paths that are found are those of the folders without files in the action folders. -/
theorem mem_find (hroot : disk.root.WellFormed) (hproject : project.Normal) (hfound : find disk project roots = .ok found) :
    t ∈ found.map EmptyFolder.path ↔ ∃ root ∈ roots, ∃ top d names,
      disk.resolve .target (project.under root).text = .ok (.found top (.folder d)) ∧ names ≠ [] ∧ d.OnlyFoldersAt names ∧
        t = (Path.mk (project.under root).anchor ((project.under root).parts ++ names)).text := by
  unfold find at hfound
  obtain ⟨lists, hlists, hshown⟩ := Outcome.bind_ok.1 hfound
  rw [Outcome.mapM_ok] at hlists hshown
  have hpath : ∀ {p : Path} {f : EmptyFolder}, shown project p = .ok f → f.path = p.text := by
    intro p f hf
    unfold shown at hf
    split at hf <;> cases hf
    rfl
  constructor
  · intro ht
    obtain ⟨f, hf, rfl⟩ := List.mem_map.1 ht
    obtain ⟨p, hp, hshow⟩ := forall₂_mem_right hshown hf
    obtain ⟨l, hl, hp⟩ := List.mem_flatten.1 hp
    obtain ⟨root, hmem, hbelow⟩ := forall₂_mem_right hlists hl
    obtain ⟨top, d, names, hresolve, hne, honly, rfl⟩ := (mem_findBelow hroot (hproject.under root) hbelow).1 hp
    exact ⟨root, hmem, top, d, names, hresolve, hne, honly, hpath hshow⟩
  · rintro ⟨root, hmem, top, d, names, hresolve, hne, honly, rfl⟩
    obtain ⟨l, hl, hbelow⟩ := forall₂_mem_left hlists hmem
    have hp := (mem_findBelow hroot (hproject.under root) hbelow).2 ⟨top, d, names, hresolve, hne, honly, rfl⟩
    obtain ⟨f, hf, hshow⟩ := forall₂_mem_left hshown (List.mem_flatten.2 ⟨l, hl, hp⟩)
    rw [← hpath hshow]
    exact List.mem_map_of_mem hf

/-- A folder lies in one of the action folders, and is not that one. -/
def InRoot (disk : Disk) (project : Path) (roots : List Text) (place : List Text) : Prop :=
  ∃ root ∈ roots, ∃ top, disk.ReachesFolder (project.under root).text top ∧ top <+: place ∧ top ≠ place

/-- A path that is found leads to a folder that lies in an action folder, and in which there are only folders. -/
theorem found_leads (hroot : disk.root.WellFormed) (hproject : project.Normal) (hfound : find disk project roots = .ok found)
    (ht : t ∈ found.map EmptyFolder.path) :
    ∃ p place d, p.Normal ∧ t = p.text ∧ disk.leads .target p = .ok (.found place (.folder d)) ∧
      InRoot disk project roots place ∧ disk.root.OnlyFoldersAt place := by
  obtain ⟨root, hroots, top, d, names, hresolve, hne, honly, rfl⟩ := (mem_find hroot hproject hfound).1 ht
  have hnormal := hproject.under root
  have htop := ((Disk.resolve_text_ok hnormal).1 hresolve).2
  obtain ⟨inside, hinside⟩ := honly.1
  have hfind := Disk.resolveParts_found htop
  have hd := (hroot.find? hfind).2 d rfl
  refine ⟨_, top ++ names, inside, Disk.normal_below hnormal (hd.find? hinside).1, rfl,
    Disk.leads_names hroot (by decide) htop hne hinside (.inr nofun),
    ⟨root, hroots, top, ⟨d, hresolve⟩, List.prefix_append .., fun heq => hne (List.self_eq_append_right.1 heq)⟩,
    ⟨inside, (Dir.find?_inside hfind names).trans hinside⟩, fun more e he => ?_⟩
  rw [List.append_assoc, Dir.find?_inside hfind] at he
  exact honly.2 more e he

/-- Two ways to say where a path leads agree. -/
theorem place_of_reaches {p : Path} (hp : p.Normal) {other : List Text} {d : Dir} (hreaches : disk.ReachesFolder p.text place)
    (hleads : disk.leads .target p = .ok (.found other (.folder d))) : place = other := by
  obtain ⟨d', hresolve⟩ := hreaches
  rw [((Disk.resolve_text_ok hp).1 hresolve).2] at hleads
  cases hleads
  rfl

/-! ## What that means for the action folders -/

/-- What is reported of a deletion are paths that were to be deleted. -/
theorem mem_reported (hroot : disk.root.WellFormed) {paths : List Text} (hdelete : delete paths disk = (.ok r, disk'))
    (ht : t ∈ r.deleted ∨ t ∈ r.errors.map (·.1)) : ∃ s ∈ paths, t = (Path.ofText s).text := by
  obtain ⟨r', gone, disk'', hrun, haccount⟩ := delete_account hroot paths
  rw [hdelete] at hrun
  cases hrun
  have hmem : t ∈ (deepestFirst (paths.map Path.ofText)).map Path.text := by
    rw [← haccount.covered.mem_iff, List.mem_append, List.mem_append]
    exact ht.imp .inl id
  obtain ⟨p, hp, rfl⟩ := List.mem_map.1 hmem
  obtain ⟨s, hs, rfl⟩ := List.mem_map.1 (List.mem_mergeSort.1 hp)
  exact ⟨s, hs, rfl⟩

/-- What goes with the folders that were found lies in an action folder, and there are only folders in it. -/
theorem removed_inside (hroot : disk.root.WellFormed) (hproject : project.Normal) (hfound : find disk project roots = .ok found)
    (hdelete : delete (found.map EmptyFolder.path) disk = (.ok r, disk')) (hplace : disk.root.FolderAt place) :
    disk'.root.FolderAt place ∨ InRoot disk project roots place ∧ disk.root.OnlyFoldersAt place := by
  refine (folder_traced hroot hdelete hplace).imp_right fun htraced => ?_
  obtain ⟨s, top, hs, hreaches, hprefix⟩ : ∃ s top, (s ∈ r.deleted ∨ s ∈ r.errors.map (·.1)) ∧
      disk.ReachesFolder s top ∧ top <+: place := by
    rcases htraced with ⟨s, hs, top, hreaches, hprefix⟩ | ⟨s, hs, top, hreaches, hprefix, -⟩
    · exact ⟨s, top, .inl hs, hreaches, hprefix⟩
    · exact ⟨s, top, .inr hs, hreaches, hprefix⟩
  obtain ⟨t, ht, rfl⟩ := mem_reported hroot hdelete hs
  obtain ⟨p, other, d, hp, rfl, hleads, ⟨root, hmem, above, habove, hin, hne⟩, honly⟩ :=
    found_leads hroot hproject hfound ht
  rw [Path.ofText_text hp] at hreaches
  obtain rfl := place_of_reaches hp hreaches hleads
  obtain ⟨more, rfl⟩ := hprefix
  refine ⟨⟨root, hmem, above, habove, hin.trans (List.prefix_append ..), fun heq => hne ?_⟩, honly.below hplace⟩
  exact hin.eq_of_length_le (heq ▸ (List.prefix_append ..).length_le)

/-- An action folder is found exactly if it lies in another one and there are only folders in it. When all that was found is
deleted, every other action folder stays. -/
theorem root_found_iff (hroot : disk.root.WellFormed) (hproject : project.Normal) (hfound : find disk project roots = .ok found) :
    (∀ root ∈ roots, (project.under root).text ∈ found.map EmptyFolder.path → ∃ place d,
      disk.leads .target (project.under root) = .ok (.found place (.folder d)) ∧
        InRoot disk project roots place ∧ disk.root.OnlyFoldersAt place) ∧
    (∀ root ∈ roots, ∀ place, disk.ReachesFolder (project.under root).text place →
      ((∃ t ∈ found.map EmptyFolder.path, ∃ d, disk.leads .target (Path.ofText t) = .ok (.found place (.folder d))) ↔
        InRoot disk project roots place ∧ disk.root.OnlyFoldersAt place)) ∧
    ∃ r disk', delete (found.map EmptyFolder.path) disk = (.ok r, disk') ∧
      ∀ root ∈ roots, ∀ place, disk.ReachesFolder (project.under root).text place →
        disk'.root.FolderAt place ∨ InRoot disk project roots place ∧ disk.root.OnlyFoldersAt place := by
  refine ⟨fun root _ ht => ?_, fun root _ place _ => ⟨?_, ?_⟩, ?_⟩
  · obtain ⟨p, place, d, hp, htext, hleads, hinside⟩ := found_leads hroot hproject hfound ht
    have heq := congrArg Path.ofText htext
    rw [Path.ofText_text hp, Path.ofText_text (hproject.under root)] at heq
    exact ⟨place, d, heq ▸ hleads, hinside⟩
  · rintro ⟨t, ht, d, hlead⟩
    obtain ⟨p, other, d', hp, rfl, hleads, hinside⟩ := found_leads hroot hproject hfound ht
    rw [Path.ofText_text hp, hleads] at hlead
    cases hlead
    exact hinside
  · rintro ⟨⟨other, hother, top, ⟨d, hresolve⟩, ⟨names, rfl⟩, hne⟩, ⟨inside, hinside⟩, honly⟩
    have hnormal := hproject.under other
    have htop := ((Disk.resolve_text_ok hnormal).1 hresolve).2
    have hfind := Disk.resolveParts_found htop
    have hnames : names ≠ [] := fun h => hne (by rw [h, List.append_nil])
    rw [Dir.find?_inside hfind] at hinside
    have hbelow : d.OnlyFoldersAt names := by
      refine ⟨⟨inside, hinside⟩, fun more e he => honly more e ?_⟩
      rw [List.append_assoc, Dir.find?_inside hfind, he]
    have hp := Disk.normal_below hnormal (((hroot.find? hfind).2 d rfl).find? hinside).1
    refine ⟨_, (mem_find hroot hproject hfound).2 ⟨other, hother, top, d, names, hresolve, hnames, hbelow, rfl⟩, inside, ?_⟩
    rw [Path.ofText_text hp]
    exact Disk.leads_names hroot (by decide) htop hnames hinside (.inr nofun)
  · obtain ⟨r, -, disk', hdelete, -⟩ := delete_account hroot (found.map EmptyFolder.path)
    refine ⟨r, disk', hdelete, fun root _ place ⟨d, hresolve⟩ => ?_⟩
    have hfind := Disk.resolveParts_found ((Disk.resolve_text_ok (hproject.under root)).1 hresolve).2
    exact removed_inside hroot hproject hfound hdelete ⟨d, hfind⟩

/-- One of two action folders lies in the other one, and stays because there is a file in it. -/
theorem sample_root_found_iff : Sample.mixedDisk.root.WellFormed ∧ Sample.project.Normal ∧
    ∃ found, find Sample.mixedDisk Sample.project ["app", "app/api"] = .ok found ∧
      InRoot Sample.mixedDisk Sample.project ["app", "app/api"] ["p", "app", "api"] ∧
      (∀ t ∈ found.map EmptyFolder.path, ∀ d,
        Sample.mixedDisk.leads .target (Path.ofText t) ≠ .ok (.found ["p", "app", "api"] (.folder d))) ∧
      ∃ r disk', delete (found.map EmptyFolder.path) Sample.mixedDisk = (.ok r, disk') ∧
        disk'.root.FolderAt ["p", "app", "api"] := by
  have hroot : Sample.mixedDisk.root.WellFormed := by decide +kernel
  have hproject : Sample.project.Normal := by decide
  obtain ⟨found, hfound, -⟩ : ∃ found, find Sample.mixedDisk Sample.project ["app", "app/api"] = .ok found ∧ True :=
    Outcome.ok_of_check (by decide +kernel)
  have happ : Sample.mixedDisk.ReachesFolder (Sample.project.under "app").text ["p", "app"] :=
    ⟨.folder "api" Sample.mixed .empty, by decide +kernel⟩
  have hapi : Sample.mixedDisk.ReachesFolder (Sample.project.under "app/api").text ["p", "app", "api"] :=
    ⟨Sample.mixed, by decide +kernel⟩
  have hinside : InRoot Sample.mixedDisk Sample.project ["app", "app/api"] ["p", "app", "api"] :=
    ⟨"app", by simp, _, happ, by decide, by decide⟩
  have hfile : ¬ Sample.mixedDisk.root.OnlyFoldersAt ["p", "app", "api"] := by
    intro honly
    obtain ⟨d, hd⟩ := honly.2 ["a.json"] (.file (Utf8.encode "x")) (by decide +kernel)
    cases hd
  obtain ⟨-, hiff, r, disk', hdelete, hstays⟩ := root_found_iff hroot hproject hfound
  refine ⟨hroot, hproject, found, hfound, hinside, fun t ht d hleads => ?_, r, disk', hdelete, ?_⟩
  · exact hfile ((hiff "app/api" (by simp) _ hapi).1 ⟨t, ht, d, hleads⟩).2
  · exact (hstays "app/api" (by simp) _ hapi).resolve_right fun h => hfile h.2

/-- An action folder without files that lies in another one is found, and removed with what was found. -/
theorem inner_root_removed :
    find (Sample.foldersDisk .empty) Sample.project ["app", "app/api"] =
        .ok [⟨(Sample.project.under "app/api").text, "app/api"⟩] ∧
      (Sample.foldersDisk .empty).root.FolderAt ["p", "app", "api"] ∧
      ∃ r disk', delete [(Sample.project.under "app/api").text] (Sample.foldersDisk .empty) = (.ok r, disk') ∧
        r.deleted = [(Sample.project.under "app/api").text] ∧ ¬ disk'.root.FolderAt ["p", "app", "api"] := by
  obtain ⟨r, hresult, hdeleted⟩ : ∃ r, (deleteNext (.ok ⟨[], [], []⟩, Sample.foldersDisk .empty)
      (Path.ofText (Sample.project.under "app/api").text)).1 = .ok r ∧
      r.deleted = [(Sample.project.under "app/api").text] := Outcome.ok_of_check (by decide +kernel)
  have hgone : (deleteNext (.ok ⟨[], [], []⟩, Sample.foldersDisk .empty)
      (Path.ofText (Sample.project.under "app/api").text)).2.root.find? ["p", "app", "api"] = none := by decide +kernel
  refine ⟨by decide +kernel, ⟨.empty, by decide +kernel⟩, r, _, ?_, hdeleted, Dir.not_folderAt_of_none hgone⟩
  rw [delete_singleton]
  exact Prod.ext hresult rfl

end ActionSweep.EmptyFolders
