/-
A project in a file tree: a path that leads to a folder without links. Below it, paths without two
dots lead to what stands at their parts, and so texts of such paths name places one to one.
-/
import ActionSweep.Proofs.Files.Resolve
import ActionSweep.Proofs.Outcome

namespace ActionSweep

namespace Disk

open ActionSweep.Path (Descends)

/-- A path of a project, the place it leads to, and the tree that stands there. -/
structure HasTree (disk : Disk) (project : Path) (place : List Text) (tree : Dir) : Prop where
  wellFormed : disk.root.WellFormed
  normal : project.Normal
  leads : disk.resolve .target project.text = .ok (.found place (.folder tree))

/-- A path of a project, the place it leads to, and the tree without links that stands there. -/
structure HasProject (disk : Disk) (project : Path) (place : List Text) (tree : Dir) : Prop where
  wellFormed : disk.root.WellFormed
  normal : project.Normal
  leads : disk.resolve .target project.text = .ok (.found place (.folder tree))
  linkFree : tree.LinkFree

/-- What stands below a folder is where a path behind the path of the folder leads. -/
theorem leads_names {disk : Disk} (hroot : disk.root.WellFormed) {aim : Aim} (haim : aim ≠ .writing)
    {p : Path} {place names : List Text} {d : Dir} {e : Entry}
    (hp : disk.leads .target p = .ok (.found place (.folder d))) (hne : names ≠ [])
    (h : d.find? names = some e) (he : aim = .entry ∨ ∀ t, e ≠ .link t) :
    disk.leads aim ⟨p.anchor, p.parts ++ names⟩ = .ok (.found (place ++ names) e) := by
  have hfind := resolveParts_found hp
  have hd := (hroot.find? hfind).2 d rfl
  obtain ⟨m, hm⟩ := resolveParts_append hne (fun h => absurd h haim) hp
  obtain ⟨jump, hjump⟩ := resolveParts_walk disk.root aim m
  rw [hjump, walk_names haim he hfind (hd.find? h).1 hne h] at hm
  exact hm

/-- A path over names that entries can have is in normal form behind one in normal form. -/
theorem normal_below {p : Path} (hp : p.Normal) {names : List Text} (hnames : ∀ n ∈ names, IsName n) :
    (Path.mk p.anchor (p.parts ++ names)).Normal := by
  intro part hpart
  rcases List.mem_append.1 hpart with hpart | hpart
  · exact hp part hpart
  · exact (hnames part hpart).part

/-- Behind a path that can be asked about, one over names that entries can have can, if it is not too long. -/
theorem zero_not_mem_below {p : Path} (hp : '\x00' ∉ p.text) {names : List Text} (hnames : ∀ n ∈ names, IsName n) :
    '\x00' ∉ (Path.mk p.anchor (p.parts ++ names)).text := by
  intro hmem
  by_cases hnil : p.parts ++ names = []
  · rw [hnil, ← (List.append_eq_nil_iff.1 hnil).1] at hmem
    exact hp hmem
  rw [Path.text_of_parts_ne_nil hnil, List.mem_append] at hmem
  rcases hmem with hmem | hmem
  · cases hanchor : p.anchor <;> rw [hanchor] at hmem <;> revert hmem <;> decide
  · rcases Text.of_mem_join hmem with hmem | ⟨q, hq, hmem⟩
    · revert hmem
      decide
    · rcases List.mem_append.1 hq with hq | hq
      · refine hp ?_
        rw [Path.text_of_parts_ne_nil (List.ne_nil_of_mem hq)]
        exact List.mem_append_right _ (Text.mem_join hmem hq)
      · exact (hnames q hq).noZero hmem

/-- A path that can be asked about has no zero character and is not too long. -/
theorem short_of_asks {disk : Disk} {p : Path} (hp : p.Normal) {b : Bool} (hzero : '\x00' ∉ p.text)
    (h : disk.isFolder p.text = .ok b) : (Utf8.encode p.text).length ≤ pathLimit := by
  by_contra hlong
  unfold isFolder test at h
  rw [resolve_text hp, if_neg (by simpa using hzero), if_pos (Nat.lt_of_not_le hlong)] at h
  cases h

namespace HasTree

variable {disk : Disk} {project : Path} {place : List Text} {tree : Dir}

theorem leads_target (h : disk.HasTree project place tree) :
    disk.leads .target project = .ok (.found place (.folder tree)) :=
  ((resolve_text_ok h.normal).1 h.leads).2

theorem find? (h : disk.HasTree project place tree) : disk.root.find? place = some (.folder tree) :=
  resolveParts_found h.leads_target

theorem find?_below (h : disk.HasTree project place tree) (rel : List Text) : disk.root.find? (place ++ rel) = tree.find? rel :=
  Dir.find?_inside h.find? rel

theorem tree_wellFormed (h : disk.HasTree project place tree) : tree.WellFormed :=
  (h.wellFormed.find? h.find?).2 tree rfl

theorem zero_not_mem (h : disk.HasTree project place tree) {names : List Text} (hnames : ∀ n ∈ names, IsName n) :
    '\x00' ∉ (Path.mk project.anchor (project.parts ++ names)).text :=
  zero_not_mem_below ((resolve_text_ok h.normal).1 h.leads).1.1 hnames

/-- Below a project, paths over names lead to the folders that stand there. -/
theorem leads_folder (h : disk.HasTree project place tree) {names : List Text} {d : Dir}
    (hfind : tree.find? names = some (.folder d)) :
    disk.leads .target ⟨project.anchor, project.parts ++ names⟩ = .ok (.found (place ++ names) (.folder d)) := by
  by_cases hnil : names = []
  · subst hnil
    cases hfind
    rw [List.append_nil, List.append_nil, h.leads_target]
  · exact leads_names h.wellFormed (by decide) h.leads_target hnil hfind (.inr (by rintro _ ⟨⟩))

/-- Below a project, paths that only lead down and pass no link lead to what stands at their parts. -/
theorem leads_iff (h : disk.HasTree project place tree) {aim : Aim} (haim : aim ≠ .writing) {rel : List Text}
    (hne : rel ≠ []) (hdesc : Descends rel) (hplain : tree.NoLinkTo rel)
    {p : List Text} {e : Entry} :
    disk.leads aim ⟨project.anchor, project.parts ++ rel⟩ = .ok (.found p e) ↔
      p = place ++ rel ∧ tree.find? rel = some e := by
  constructor
  · intro hleads
    obtain ⟨m, hm⟩ := resolveParts_append hne (fun h => absurd h haim) h.leads_target
    obtain ⟨jump, hjump⟩ := resolveParts_walk disk.root aim m
    rw [hjump] at hm
    exact walk_plain haim h.find? hplain hdesc (hm.symm.trans hleads)
  · rintro ⟨rfl, hfind⟩
    refine leads_names h.wellFormed haim h.leads_target hne hfind (.inr fun t he => ?_)
    exact hplain rel (List.prefix_refl rel) t (he ▸ hfind)

/-- The folders of a project are where such paths lead to folders; one of them is the project. -/
theorem leads_folder_iff (h : disk.HasTree project place tree) {rel : List Text} (hdesc : Descends rel)
    (hplain : tree.NoLinkTo rel) {p : List Text} {d : Dir} :
    disk.leads .target ⟨project.anchor, project.parts ++ rel⟩ = .ok (.found p (.folder d)) ↔
      p = place ++ rel ∧ tree.find? rel = some (.folder d) := by
  constructor
  · intro hleads
    by_cases hnil : rel = []
    · subst hnil
      rw [List.append_nil, h.leads_target] at hleads
      cases hleads
      exact ⟨(List.append_nil place).symm, rfl⟩
    · exact (h.leads_iff (by decide) hnil hdesc hplain).1 hleads
  · rintro ⟨rfl, hfind⟩
    exact h.leads_folder hfind

end HasTree

namespace HasProject

variable {disk : Disk} {project : Path} {place : List Text} {tree : Dir}

theorem hasTree (h : disk.HasProject project place tree) : disk.HasTree project place tree :=
  ⟨h.wellFormed, h.normal, h.leads⟩

theorem leads_target (h : disk.HasProject project place tree) :
    disk.leads .target project = .ok (.found place (.folder tree)) := h.hasTree.leads_target

theorem find? (h : disk.HasProject project place tree) : disk.root.find? place = some (.folder tree) := h.hasTree.find?

theorem tree_wellFormed (h : disk.HasProject project place tree) : tree.WellFormed := h.hasTree.tree_wellFormed

/-- Below a project, paths that only lead down lead to what stands at their parts. -/
theorem leads_iff (h : disk.HasProject project place tree) {aim : Aim} (haim : aim ≠ .writing)
    {rel : List Text} (hne : rel ≠ []) (hdesc : Descends rel) {p : List Text} {e : Entry} :
    disk.leads aim ⟨project.anchor, project.parts ++ rel⟩ = .ok (.found p e) ↔
      p = place ++ rel ∧ tree.find? rel = some e := h.hasTree.leads_iff haim hne hdesc (h.linkFree.noLinkTo rel)

/-- The folders of a project are where paths that only lead down lead to folders; one of them is the project. -/
theorem leads_folder_iff (h : disk.HasProject project place tree) {rel : List Text} (hdesc : Descends rel)
    {p : List Text} {d : Dir} :
    disk.leads .target ⟨project.anchor, project.parts ++ rel⟩ = .ok (.found p (.folder d)) ↔
      p = place ++ rel ∧ tree.find? rel = some (.folder d) := h.hasTree.leads_folder_iff hdesc (h.linkFree.noLinkTo rel)

theorem zero_not_mem (h : disk.HasProject project place tree) {names : List Text} (hnames : ∀ n ∈ names, IsName n) :
    '\x00' ∉ (Path.mk project.anchor (project.parts ++ names)).text := h.hasTree.zero_not_mem hnames

/-- Below a project, a path over names can be asked about exactly if it is not too long. -/
theorem asks_iff (h : disk.HasProject project place tree) {names : List Text} (hnames : ∀ n ∈ names, IsName n) :
    (∃ b, disk.isFolder (Path.mk project.anchor (project.parts ++ names)).text = .ok b) ↔
      (Utf8.encode (Path.mk project.anchor (project.parts ++ names)).text).length ≤ pathLimit := by
  have hnormal := normal_below h.normal hnames
  have hzero := h.zero_not_mem hnames
  constructor
  · rintro ⟨b, hb⟩
    exact short_of_asks hnormal hzero hb
  · intro hshort
    unfold isFolder test
    rw [resolve_text hnormal, if_neg (by simpa using hzero), if_neg (Nat.not_lt.2 hshort)]
    cases hleads : disk.leads .target ⟨project.anchor, project.parts ++ names⟩ with
    | ok x =>
      cases x with
      | found p e => exact ⟨_, rfl⟩
      | free folder name => exact ⟨_, rfl⟩
    | error problem =>
      have habsence : problem.isAbsence = true := by
        by_cases hnil : names = []
        · rw [hnil, List.append_nil, h.leads_target] at hleads
          cases hleads
        · obtain ⟨m, hm⟩ := resolveParts_append hnil (show Aim.target = .writing → names ≠ [[]] by rintro ⟨⟩) h.leads_target
          obtain ⟨jump, hjump⟩ := resolveParts_walk disk.root .target m
          rw [hjump] at hm
          exact walk_absence (by decide) h.find? h.linkFree hnames (hm.symm.trans hleads)
      refine ⟨false, ?_⟩
      simp only [Except.mapError, refuse, habsence, if_true]

/-- A name without two dots and without a leading slash leads to the place of its parts. -/
theorem spot_of_inside (h : disk.HasProject project place tree) {t : Text} (hhere : Path.anchorOf t = .here)
    (hne : Path.partsOf t ≠ []) (hdots : (['.', '.'] : Text) ∉ Path.partsOf t) {spot : List Text} {b : Bytes}
    (hr : disk.resolve .target (project.under t).text = .ok (.found spot (.file b))) :
    spot = place ++ Path.partsOf t := by
  have hunder : project.under t = ⟨project.anchor, project.parts ++ Path.partsOf t⟩ := if_pos hhere
  have hleads := ((resolve_text_ok (h.normal.under t)).1 hr).2
  rw [hunder] at hleads
  refine ((h.leads_iff (by decide) hne fun p hp => ?_).1 hleads).1
  exact ⟨Path.isPart_of_mem_partsOf hp, fun he => hdots (he ▸ hp)⟩

end HasProject

/-- What is a file itself is also what stands there behind links. -/
theorem resolve_entry {disk : Disk} {p : Path} (hp : p.Normal) {place : List Text} {b : Bytes}
    (h : disk.resolve .entry p.text = .ok (.found place (.file b))) :
    disk.resolve .target p.text = .ok (.found place (.file b)) := by
  obtain ⟨hshort, hleads⟩ := (resolve_text_ok hp).1 h
  exact (resolve_text_ok hp).2 ⟨hshort, resolveParts_entry hleads⟩

/-! ## Reading and listing -/

variable {disk : Disk}

theorem list_ok {path : Text} {d : Dir} :
    disk.list path = .ok d ↔ ∃ place, disk.resolve .target path = .ok (.found place (.folder d)) := by
  unfold list
  constructor
  · intro h
    obtain ⟨x, hx, h⟩ := Outcome.bind_ok.1 h
    split at h
    · cases h; exact ⟨_, hx⟩
    · cases h
    · cases h
  · rintro ⟨place, h⟩
    rw [h]; rfl

theorem wellFormed_of_resolve (hroot : disk.root.WellFormed) {p : Path} (hp : p.Normal) {top : List Text} {d : Dir}
    (h : disk.resolve .target p.text = .ok (.found top (.folder d))) : d.WellFormed :=
  (hroot.find? (resolveParts_found ((resolve_text_ok hp).1 h).2)).2 d rfl

theorem read_ok {path : Text} {b : Bytes} :
    disk.read path = .ok b ↔ ∃ place, disk.resolve .target path = .ok (.found place (.file b)) := by
  unfold read
  constructor
  · intro h
    obtain ⟨x, hx, h⟩ := Outcome.bind_ok.1 h
    split at h
    · cases h; exact ⟨_, hx⟩
    · cases h
    · cases h
    · cases h
  · rintro ⟨place, h⟩
    rw [h]; rfl

theorem present_ok {path : Text} :
    disk.present path = .ok true ↔ ∃ place e, disk.resolve .target path = .ok (.found place e) := by
  unfold present test
  constructor
  · intro h
    split at h
    · exact ⟨_, _, ‹_›⟩
    · cases h
    · split at h <;> cases h
    · cases h
    · cases h
  · rintro ⟨place, e, h⟩
    rw [h]

theorem isFolder_of_leadsToFolder {path : Text} (h : disk.leadsToFolder path = true) : disk.isFolder path = .ok true := by
  unfold leadsToFolder at h
  split at h
  · rename_i b hb
    rw [hb, h]
  · cases h

theorem list_of_isFolder {path : Text} (h : disk.isFolder path = .ok true) : ∃ d, disk.list path = .ok d := by
  unfold Disk.isFolder Disk.test at h
  split at h
  · rename_i place e hr
    cases e with
    | folder d => exact ⟨d, Disk.list_ok.2 ⟨place, hr⟩⟩
    | file b | link t => cases h
  · cases h
  · split at h <;> cases h
  · cases h
  · cases h

/-- A folder of a project can be listed if its path is not too long. -/
theorem HasTree.list_of_short {project : Path} {place : List Text} {tree : Dir} (h : disk.HasTree project place tree)
    {names : List Text} {d : Dir} (hd : tree.find? names = some (.folder d))
    (hshort : (Utf8.encode (Path.mk project.anchor (project.parts ++ names)).text).length ≤ pathLimit) :
    disk.list (Path.mk project.anchor (project.parts ++ names)).text = .ok d := by
  have hnames := (h.tree_wellFormed.find? hd).1
  exact list_ok.2 ⟨place ++ names,
    (resolve_text_ok (normal_below h.normal hnames)).2 ⟨⟨h.zero_not_mem hnames, hshort⟩, h.leads_folder hd⟩⟩

/-- What can be listed by parts that lead down from a project is a folder there. -/
theorem HasProject.folder_of_list {project : Path} {place : List Text} {tree : Dir} (h : disk.HasProject project place tree)
    {names : List Text} (hdesc : Descends names) {d : Dir}
    (hlist : disk.list (Path.mk project.anchor (project.parts ++ names)).text = .ok d) :
    tree.find? names = some (.folder d) := by
  have hnormal : (Path.mk project.anchor (project.parts ++ names)).Normal := by
    intro part hpart
    rcases List.mem_append.1 hpart with hpart | hpart
    · exact h.normal part hpart
    · exact (hdesc part hpart).1
  obtain ⟨top, hresolve⟩ := list_ok.1 hlist
  exact ((h.leads_folder_iff hdesc).1 ((resolve_text_ok hnormal).1 hresolve).2).2

/-- A folder that can be asked about is there, and can be listed. -/
theorem folder_of_isFolder {p : Path} {place : List Text} {d : Dir} {b : Bool} (hp : p.Normal)
    (hzero : '\x00' ∉ p.text) (hleads : disk.leads .target p = .ok (.found place (.folder d)))
    (h : disk.isFolder p.text = .ok b) : b = true ∧ disk.list p.text = .ok d := by
  have hr := (resolve_text_ok hp).2 ⟨⟨hzero, short_of_asks hp hzero h⟩, hleads⟩
  refine ⟨?_, list_ok.2 ⟨place, hr⟩⟩
  unfold isFolder test at h
  rw [hr] at h
  cases h
  rfl

/-- Where a folder of a project stands, the answer can only be that it is one. -/
theorem HasTree.isFolder_standing {project : Path} {place : List Text} {tree : Dir} (h : disk.HasTree project place tree)
    {dir : Text} (hhere : Path.anchorOf dir = .here) {d : Dir} (hd : tree.find? (Path.partsOf dir) = some (.folder d))
    {b : Bool} (hb : disk.isFolder (project.under dir).text = .ok b) : b = true := by
  have hunder : project.under dir = ⟨project.anchor, project.parts ++ Path.partsOf dir⟩ := if_pos hhere
  have hnames := (h.tree_wellFormed.find? hd).1
  rw [hunder] at hb
  exact (folder_of_isFolder (normal_below h.normal hnames) (h.zero_not_mem hnames) (h.leads_folder hd) hb).1

/-- What can be asked about by parts that lead down from a project is a folder if one stands there. -/
theorem HasProject.leadsToFolder_iff {project : Path} {place : List Text} {tree : Dir} (h : disk.HasProject project place tree)
    {dir : Text} (hhere : Path.anchorOf dir = .here) (hdesc : Descends (Path.partsOf dir))
    (hasks : ∃ b, disk.isFolder (project.under dir).text = .ok b) :
    disk.leadsToFolder (project.under dir).text = true ↔ ∃ d, tree.find? (Path.partsOf dir) = some (.folder d) := by
  have hunder : project.under dir = ⟨project.anchor, project.parts ++ Path.partsOf dir⟩ := if_pos hhere
  constructor
  · intro hleads
    obtain ⟨d, hlist⟩ := list_of_isFolder (isFolder_of_leadsToFolder hleads)
    exact ⟨d, h.folder_of_list hdesc (hunder ▸ hlist)⟩
  · rintro ⟨d, hd⟩
    obtain ⟨b, hb⟩ := hasks
    obtain rfl := h.hasTree.isFolder_standing hhere hd hb
    unfold leadsToFolder
    rw [hb]

end Disk

/-! ## Files of a project -/

open ActionSweep.Path (Descends)

/-- A text that names a file of a project by the parts that lead to it. -/
structure IsProjectFile (tree : Dir) (file : Text) : Prop where
  text_eq : file = (Path.mk .here (Path.partsOf file)).text
  nonempty : Path.partsOf file ≠ []
  descends : Descends (Path.partsOf file)
  stands : ∃ b, tree.find? (Path.partsOf file) = some (.file b)

theorem partsOf_text {parts : List Text} (h : Descends parts) :
    Path.partsOf (Path.mk .here parts).text = parts :=
  congrArg Path.parts (Path.ofText_text (h.normal .here))

theorem isProjectFile_text {tree : Dir} {parts : List Text} {b : Bytes} (hne : parts ≠ []) (h : Descends parts)
    (hstands : tree.find? parts = some (.file b)) : IsProjectFile tree (Path.mk .here parts).text := by
  have hparts := partsOf_text h
  exact ⟨by rw [hparts], by rwa [hparts], by rwa [hparts], b, by rwa [hparts]⟩

theorem IsProjectFile.under {tree : Dir} {file : Text} (h : IsProjectFile tree file) (project : Path) :
    project.under file = ⟨project.anchor, project.parts ++ Path.partsOf file⟩ := by
  conv => lhs; rw [h.text_eq]
  exact Path.under_text (h.descends.normal .here) rfl

theorem IsProjectFile.ext {tree : Dir} {file other : Text} (h : IsProjectFile tree file)
    (h' : IsProjectFile tree other) (he : Path.partsOf file = Path.partsOf other) : file = other := by
  rw [h.text_eq, h'.text_eq, he]

/-- A file of a project leads to where it stands, if its path can be asked about at all. -/
theorem IsProjectFile.resolve {tree : Dir} {file : Text} (h : IsProjectFile tree file) {disk : Disk}
    {project : Path} {place : List Text} (hp : disk.HasProject project place tree) {aim : Disk.Aim}
    (haim : aim ≠ .writing) {p : List Text} {e : Entry}
    (hr : disk.resolve aim (project.under file).text = .ok (.found p e)) :
    p = place ++ Path.partsOf file ∧ tree.find? (Path.partsOf file) = some e := by
  rw [Disk.resolve_text_ok (hp.normal.under file), h.under] at hr
  exact (hp.leads_iff haim h.nonempty h.descends).1 hr.2

/-- A file of a project is where its text leads, unless the path is too long to be asked about. -/
theorem IsProjectFile.resolve_eq {tree : Dir} {file : Text} (h : IsProjectFile tree file) {disk : Disk}
    {project : Path} {place : List Text} (hp : disk.HasProject project place tree) {aim : Disk.Aim}
    (haim : aim ≠ .writing) {b : Bytes} (hb : tree.find? (Path.partsOf file) = some (.file b)) :
    disk.resolve aim (project.under file).text =
      if Disk.pathLimit < (Utf8.encode (project.under file).text).length then
        .error (Disk.refuse .nameTooLong (project.under file).text)
      else .ok (.found (place ++ Path.partsOf file) (.file b)) := by
  have hleads : disk.leads aim (project.under file) = .ok (.found (place ++ Path.partsOf file) (.file b)) := by
    rw [h.under]
    exact (hp.leads_iff haim h.nonempty h.descends).2 ⟨rfl, hb⟩
  have hzero : '\x00' ∉ (project.under file).text := by
    rw [h.under]
    exact hp.zero_not_mem (hp.tree_wellFormed.find? hb).1
  rw [Disk.resolve_text (hp.normal.under file), if_neg (by simpa using hzero), hleads]
  rfl

theorem IsProjectFile.read_eq {tree : Dir} {file : Text} (h : IsProjectFile tree file) {disk : Disk}
    {project : Path} {place : List Text} (hp : disk.HasProject project place tree) {b : Bytes}
    (hb : tree.find? (Path.partsOf file) = some (.file b)) :
    disk.read (project.under file).text =
      if Disk.pathLimit < (Utf8.encode (project.under file).text).length then
        .error (Disk.refuse .nameTooLong (project.under file).text)
      else .ok b := by
  unfold Disk.read
  rw [h.resolve_eq hp (by decide) hb]
  split
  · rfl
  · rfl

end ActionSweep
