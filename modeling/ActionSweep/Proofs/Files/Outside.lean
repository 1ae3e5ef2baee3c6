/-
Paths that lead to a folder from outside: they lead there also when the folder is empty, so they lead there whatever it
holds, and still lead there while it is cleared. A path that leads through what the folder itself holds, by two dots or
a link, loses its way in between.
-/
import ActionSweep.Proofs.Files.Clearing

namespace ActionSweep

namespace Dir

variable {d : Dir} {path place : List Text} {e f : Entry}

theorem StillHas.congr (h : d.StillHas path e) (hshell : e.shell = f.shell) : d.StillHas path f := by
  obtain ⟨g, hg, hg'⟩ := h
  exact ⟨g, hg, hg'.trans hshell⟩

/-- A tree with one of its folders emptied. -/
theorem exists_emptied (h : d.FolderAt place) :
    ∃ bare, d.SameBut [place] bare ∧ bare.find? place = some (.folder .empty) := by
  rcases List.eq_nil_or_concat' place with rfl | ⟨front, n, rfl⟩
  · exact ⟨.empty, fun path hpath => absurd (List.nil_prefix (l := path)) (hpath [] (List.mem_singleton_self _)), rfl⟩
  · obtain ⟨inside, hinside⟩ := FolderAt.dropLast h
    rw [List.dropLast_concat] at hinside
    refine ⟨d.putAt (front ++ [n]) (.folder .empty), sameBut_putAt _ _ _, ?_⟩
    rw [find?_concat front n (find?_putAt n _ hinside), get?_put, if_pos rfl]

/-- What stands in a tree with a folder emptied, and not in that folder, stands in the whole tree. -/
theorem SameBut.stood {d' : Dir} (h : d.SameBut [place] d') (hpath : ¬ place <+: path) (he : d'.find? path = some e) :
    d.StillHas path e := by
  have hshell := h path (by simpa using hpath)
  rw [he, Option.map_some, eq_comm, Option.map_eq_some_iff] at hshell
  exact hshell

theorem SameBut.stays {d' : Dir} (h : d.SameBut [place] d') (hpath : ¬ place <+: path) (he : d.find? path = some e) :
    d'.StillHas path e := by
  have hshell := h path (by simpa using hpath)
  rw [he, Option.map_some, Option.map_eq_some_iff] at hshell
  exact hshell

/-- In an empty folder stands the folder, and nothing else. -/
theorem find?_in_empty (hplace : d.find? place = some (.folder .empty)) (hpath : place <+: path) (he : d.find? path = some e) :
    path = place ∧ e = .folder .empty := by
  obtain ⟨more, rfl⟩ := hpath
  cases more with
  | nil =>
    rw [List.append_nil, hplace] at he
    cases he
    exact ⟨List.append_nil place, rfl⟩
  | cons n more =>
    rw [find?_inside hplace, find?_cons] at he
    cases he

end Dir

namespace Disk

variable {disk disk' : Disk} {p : Path} {place : List Text} {inside d : Dir} {gone : List (List Text)}

/-- A path leads to a folder, also if all that it holds were not there. -/
def LeadsFromOutside (disk : Disk) (p : Path) (place : List Text) : Prop :=
  ∃ bare, disk.root.SameBut [place] bare ∧ bare.find? place = some (.folder .empty) ∧
    (disk.setRoot bare).leads .target p = .ok (.found place (.folder .empty))

/-- It leads there in every tree in which the folder stands, and everything outside it. -/
theorem LeadsFromOutside.leads (h : disk.LeadsFromOutside p place) {root : Dir}
    (hplace : root.find? place = some (.folder inside))
    (hways : ∀ path e, ¬ place <+: path → disk.root.find? path = some e → root.StillHas path e) :
    (disk.setRoot root).leads .target p = .ok (.found place (.folder inside)) := by
  obtain ⟨bare, hsame, hbare, hleads⟩ := h
  have hfinds := finds_of_resolveParts hleads
  obtain ⟨e, hshell, he⟩ := hfinds.both root (fun path f f' hf hf' => by
    rw [hf] at hf'
    cases hf'
    refine ⟨rfl, ?_⟩
    by_cases hpath : place <+: path
    · obtain ⟨rfl, rfl⟩ := Dir.find?_in_empty hbare hpath hf
      exact ⟨_, hplace, rfl⟩
    · obtain ⟨g, hg, hshell⟩ := hsame.stood hpath hf
      exact (hways path g hpath hg).congr hshell) hfinds
  have hstands := he.stands
  rw [hplace] at hstands
  cases hstands
  exact resolveParts_of_finds he

/-- It leads there from outside while folders are cleared, as long as it leads there. -/
theorem LeadsFromOutside.cleared (h : disk.LeadsFromOutside p place) (hclears : Clears gone disk disk')
    (hlead : disk'.leads .target p = .ok (.found place (.folder d))) : disk'.LeadsFromOutside p place := by
  obtain ⟨bare, hsame, hbare, hleads⟩ := h
  have hplace := resolveParts_found hlead
  obtain ⟨bare', hsame', hbare'⟩ := Dir.exists_emptied ⟨d, hplace⟩
  refine ⟨bare', hsame', hbare', ?_⟩
  have hwf : disk'.workingFolder = disk.workingFolder := by
    rw [hclears.disk_eq]
    rfl
  have hfinds : Finds disk'.root place (.folder d) linkLimit (if p.isAbsolute then [] else disk.workingFolder) p.parts := by
    rw [← hwf]
    exact finds_of_resolveParts hlead
  -- what both walks meet stands outside the folder, and so it stands in the emptied tree
  obtain ⟨e, hshell, he⟩ := (finds_of_resolveParts hleads).both bare' (fun path f f' hf hf' => by
    by_cases hpath : place <+: path
    · obtain ⟨rfl, rfl⟩ := Dir.find?_in_empty hbare hpath hf
      rw [hplace] at hf'
      cases hf'
      exact ⟨rfl, _, hbare', rfl⟩
    · obtain ⟨g, hg, hshell⟩ := (hclears.cleared.stood hf').1
      obtain ⟨k, hk, hshell'⟩ := hsame.stood hpath hf
      rw [hg] at hk
      cases hk
      exact ⟨hshell.symm.trans hshell', (hsame'.stays hpath hf').congr (hshell.symm.trans hshell')⟩) hfinds
  have hstands := he.stands
  rw [hbare'] at hstands
  cases hstands
  show resolveParts bare' .target linkLimit (if p.isAbsolute then [] else disk'.workingFolder) p.parts = _
  rw [hwf]
  exact resolveParts_of_finds he

/-- A path over the names of folders leads to the last one from outside. -/
theorem leadsFromOutside_of_names (hroot : disk.root.WellFormed) (here : List Text)
    (hhere : (if p.isAbsolute then [] else disk.workingFolder) = here)
    (hplace : disk.root.find? (here ++ p.parts) = some (.folder d)) : disk.LeadsFromOutside p (here ++ p.parts) := by
  obtain ⟨bare, hsame, hbare⟩ := Dir.exists_emptied ⟨d, hplace⟩
  refine ⟨bare, hsame, hbare, ?_⟩
  obtain ⟨jump, hjump⟩ := resolveParts_walk bare .target linkLimit
  show resolveParts bare .target linkLimit (if p.isAbsolute then [] else disk.workingFolder) p.parts = _
  rw [hjump, hhere]
  by_cases hnil : p.parts = []
  · rw [hnil, List.append_nil] at hbare ⊢
    simp only [walk, hbare]
  · obtain ⟨top, htop, hinside⟩ := Dir.find?_folder_of_append hnil hbare
    have hnames : ∀ n ∈ p.parts, IsName n := fun n hn => (hroot.find? hplace).1 n (List.mem_append_right here hn)
    exact walk_names (by decide) (.inr (by rintro _ ⟨⟩)) htop hnames hnil hinside

/-- A text leads to a folder, behind links. -/
def ReachesFolder (disk : Disk) (t : Text) (place : List Text) : Prop :=
  ∃ d, disk.resolve .target t = .ok (.found place (.folder d))

theorem Clears.reachesFolder {t : Text} (h : Clears gone disk disk') (hreaches : disk'.ReachesFolder t place) :
    disk.ReachesFolder t place := by
  obtain ⟨d, hd⟩ := hreaches
  exact h.folder (by decide) hd

/-- A text that names a folder itself: its path ends with the name, there is no link at the end, and it leads to the
folder from outside. -/
structure NamesFolder (disk : Disk) (t : Text) (place : List Text) : Prop where
  named : nameless? t = none
  entry : ∃ d, disk.resolve .entry t = .ok (.found place (.folder d))
  outside : disk.LeadsFromOutside (Path.ofText t) place

/-- What is found behind a link at the end is no folder itself. -/
theorem resolve_entry_of_folder {t : Text} (h : disk.resolve .target t = .ok (.found place (.folder d)))
    {other : List Text} {d' : Dir} (hentry : disk.resolve .entry t = .ok (.found other (.folder d'))) :
    disk.resolve .entry t = .ok (.found place (.folder d)) := by
  rcases resolve_entry_or_link (by decide) h with hsame | ⟨q, u, hlink⟩
  · exact hsame
  · rw [hlink] at hentry
    cases hentry

theorem NamesFolder.cleared (hp : p.Normal) (h : disk.NamesFolder p.text place) (hclears : Clears gone disk disk')
    (hreaches : disk'.ReachesFolder p.text place) : disk'.NamesFolder p.text place where
  named := h.named
  entry := by
    obtain ⟨d, hfound⟩ := hreaches
    refine ⟨d, ?_⟩
    rcases resolve_entry_or_link (by decide) hfound with hsame | ⟨q, u, hlink⟩
    · exact hsame
    · obtain ⟨f, hf, hshell⟩ := hclears.found (by decide) hlink
      obtain ⟨d', hd'⟩ := h.entry
      rw [hf] at hd'
      cases hd'
      cases hshell
  outside := by
    obtain ⟨d, hfound⟩ := hreaches
    have houtside := h.outside
    rw [Path.ofText_text hp] at houtside ⊢
    exact houtside.cleared hclears ((resolve_text_ok hp).1 hfound).2

end Disk

end ActionSweep
