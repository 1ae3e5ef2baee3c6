/-
The search for folders without files, before and after JSON files of a project were removed. A folder that
has lost its last file is shown by its path relative to the project, so the search ends well afterwards
if no action folder lies so far above the project that such a folder is outside it.
-/
import ActionSweep.Proofs.Scan.Rescan

namespace ActionSweep

open Outcome (bind_ok mapM_ok)

variable {disk : Disk} {project : Path} {place : List Text} {tree : Dir} {lost : List Text}

/-- One path leads to a folder from which another one leads on through at least one more folder. -/
structure Path.FarAbove (p q : Path) : Prop where
  anchor : p.anchor = q.anchor
  begins : p.parts <+: q.parts
  far : p.parts.length + 1 < q.parts.length

/-- A folder on the way to something of a project is of the project itself, or far above it. -/
theorem Path.relative_or_farAbove {p q project : Path} {names more : List Text} (hnames : names ≠ [])
    (h : Path.relativeTo? project ⟨p.anchor, p.parts ++ (names ++ more)⟩ = some q) :
    (∃ q, Path.relativeTo? project ⟨p.anchor, p.parts ++ names⟩ = some q) ∨ p.FarAbove project := by
  obtain ⟨hanchor, hall⟩ := Path.mk.inj (Path.relativeTo?_eq_some.1 h).1
  have hparts : p.parts ++ names ++ more = project.parts ++ q.parts := (List.append_assoc ..).trans hall
  rcases List.prefix_or_prefix_of_prefix (hparts ▸ List.prefix_append project.parts q.parts)
      (List.prefix_append (p.parts ++ names) more) with ⟨rest, hrest⟩ | hshort
  · exact .inl ⟨⟨.here, rest⟩, Path.relativeTo?_eq_some.2 ⟨by rw [← hrest, hanchor], rfl⟩⟩
  · by_cases hlen : (p.parts ++ names).length = project.parts.length
    · refine .inl ⟨⟨.here, []⟩, Path.relativeTo?_eq_some.2 ⟨?_, rfl⟩⟩
      rw [hshort.eq_of_length hlen, hanchor, List.append_nil]
    · refine .inr ⟨hanchor, (List.prefix_append _ _).trans hshort, ?_⟩
      have h1 := hshort.length_le
      have h2 := List.length_pos_iff.2 hnames
      rw [List.length_append] at hlen h1
      omega

namespace EmptyFolders

/-- What is asked of everything below a folder is asked of what is directly in it. -/
theorem askIn_ok : ∀ {d : Dir} {path : Path} {u : Unit}, askBelow disk path d = .ok u → askIn disk path d = .ok u
  | .empty, _, _, h => h
  | .file _ _ rest, _, _, h | .link _ _ rest, _, _, h => by
    obtain ⟨b, hb, h⟩ := bind_ok.1 h
    exact bind_ok.2 ⟨b, hb, askIn_ok (d := rest) h⟩
  | .folder _ _ rest, _, _, h => by
    obtain ⟨b, hb, h⟩ := bind_ok.1 h
    obtain ⟨_, -, h⟩ := bind_ok.1 h
    exact bind_ok.2 ⟨b, hb, askIn_ok (d := rest) h⟩

/-- It can be asked of everything among some contents of a folder whether it is a folder. -/
def CanAsk (disk : Disk) (root : Path) (contents : List (List Text × Entry)) : Prop :=
  ∀ x ∈ contents, ∃ b, disk.isFolder (Path.mk root.anchor (root.parts ++ x.1)).text = .ok b

theorem canAsk_cons {root : Path} {x : List Text × Entry} {contents : List (List Text × Entry)} :
    CanAsk disk root (x :: contents) ↔
      (∃ b, disk.isFolder (Path.mk root.anchor (root.parts ++ x.1)).text = .ok b) ∧ CanAsk disk root contents :=
  List.forall_mem_cons

theorem canAsk_append {root : Path} {contents others : List (List Text × Entry)} :
    CanAsk disk root (contents ++ others) ↔ CanAsk disk root contents ∧ CanAsk disk root others :=
  List.forall_mem_append

theorem askBelow_ok {root : Path} : ∀ {d : Dir} {folder : List Text},
    askBelow disk ⟨root.anchor, root.parts ++ folder⟩ d = .ok () ↔ CanAsk disk root (d.contents folder)
  | .empty, _ => iff_of_true rfl (by rintro _ ⟨⟩)
  | .file n b rest, folder => by
    rw [askBelow, bind_ok, Path.inside_below, exists_and_right, askBelow_ok, Dir.contents, canAsk_cons]
  | .link n t rest, folder => by
    rw [askBelow, bind_ok, Path.inside_below, exists_and_right, askBelow_ok, Dir.contents, canAsk_cons]
  | .folder n d rest, folder => by
    rw [askBelow, bind_ok, Path.inside_below, exists_and_right, bind_ok, Dir.contents, canAsk_cons, canAsk_append,
      ← askBelow_ok, ← askBelow_ok]
    refine and_congr_right fun _ => ⟨?_, fun h => ⟨(), h⟩⟩
    rintro ⟨_, h⟩
    exact h

/-- All below a folder of a project can be asked about exactly if nothing there has too long a path. -/
theorem canAsk_iff_short (hp : disk.HasProject project place tree) {dir : Text} (hhere : Path.anchorOf dir = .here) {d : Dir}
    (hd : tree.find? (Path.partsOf dir) = some (.folder d)) :
    CanAsk disk (project.under dir) (d.contents []) ↔ Scan.ShortBelow project tree dir := by
  have hunder : project.under dir = ⟨project.anchor, project.parts ++ Path.partsOf dir⟩ := if_pos hhere
  have hwf := (hp.tree_wellFormed.find? hd).2 d rfl
  rw [hunder]
  constructor
  · intro h more e hne he
    refine (hp.asks_iff (hp.tree_wellFormed.find? he).1).1 ?_
    rw [Dir.find?_inside hd] at he
    obtain ⟨b, hb⟩ := h (more, e) ((Dir.mem_contents hwf).2 ⟨more, hne, rfl, he⟩)
    exact ⟨b, by rwa [List.append_assoc] at hb⟩
  · rintro h ⟨parts, e⟩ hmem
    obtain ⟨_, hne, rfl, he⟩ := (Dir.mem_contents hwf).1 hmem
    have hfind : tree.find? (Path.partsOf dir ++ parts) = some e := (Dir.find?_inside hd parts).trans he
    rw [List.append_assoc]
    exact (hp.asks_iff (hp.tree_wellFormed.find? hfind).1).2 (h parts e hne hfind)

theorem findBelow_ok {root : Path} {found : List Path} :
    findBelow disk root = .ok found ↔ (disk.isFolder root.text = .ok false ∧ found = []) ∨
      ∃ d, disk.isFolder root.text = .ok true ∧ disk.list root.text = .ok d ∧ CanAsk disk root (d.contents []) ∧
        found = d.emptyFolders root := by
  have hbelow : ∀ d, askBelow disk root d = .ok () ↔ CanAsk disk root (d.contents []) := by
    intro d
    have h : askBelow disk ⟨root.anchor, root.parts ++ []⟩ d = .ok () ↔ _ := askBelow_ok
    rwa [List.append_nil] at h
  unfold findBelow
  rw [bind_ok]
  constructor
  · rintro ⟨b, hb, h⟩
    cases b with
    | false =>
      cases h
      exact .inl ⟨hb, rfl⟩
    | true =>
      obtain ⟨d, hd, h⟩ := bind_ok.1 h
      obtain ⟨_, -, h⟩ := bind_ok.1 h
      obtain ⟨_, hasks, h⟩ := bind_ok.1 h
      cases h
      exact .inr ⟨d, hb, hd, (hbelow d).1 hasks, rfl⟩
  · rintro (⟨hb, rfl⟩ | ⟨d, hb, hd, hasks, rfl⟩)
    · exact ⟨false, hb, rfl⟩
    · exact ⟨true, hb, bind_ok.2 ⟨d, hd, bind_ok.2 ⟨(), askIn_ok ((hbelow d).2 hasks),
      bind_ok.2 ⟨(), (hbelow d).2 hasks, rfl⟩⟩⟩⟩

theorem shown_ok {path : Path} : (∃ f, shown project path = .ok f) ↔ ∃ q, Path.relativeTo? project path = some q := by
  unfold shown
  split
  · rename_i q hq
    exact ⟨fun _ => ⟨q, hq⟩, fun _ => ⟨_, rfl⟩⟩
  · rename_i hq
    constructor
    · rintro ⟨f, hf⟩
      cases hf
    · rintro ⟨q, hq'⟩
      rw [hq] at hq'
      cases hq'

theorem find_ok {dirs : List Text} : (∃ folders, find disk project dirs = .ok folders) ↔
    ∀ dir ∈ dirs, ∃ found, findBelow disk (project.under dir) = .ok found ∧
      ∀ p ∈ found, ∃ q, Path.relativeTo? project p = some q := by
  unfold find
  constructor
  · rintro ⟨folders, h⟩ dir hdir
    obtain ⟨found, hfound, h⟩ := bind_ok.1 h
    obtain ⟨l, hl, hlist⟩ := forall₂_mem_left (mapM_ok.1 hfound) hdir
    refine ⟨l, hlist, fun p hp => ?_⟩
    obtain ⟨f, -, hf⟩ := forall₂_mem_left (mapM_ok.1 h) (List.mem_flatten.2 ⟨l, hl, hp⟩)
    exact shown_ok.1 ⟨f, hf⟩
  · intro h
    obtain ⟨found, hfound⟩ := Outcome.mapM_runs fun dir hdir => (h dir hdir).imp fun _ hl => hl.1
    obtain ⟨folders, hfolders⟩ := Outcome.mapM_runs (f := shown project) (l := found.flatten) fun p hp => by
      obtain ⟨l, hl, hp⟩ := List.mem_flatten.1 hp
      obtain ⟨dir, hdir, hlist⟩ := forall₂_mem_right (mapM_ok.1 hfound) hl
      obtain ⟨l', hl', hrel⟩ := h dir hdir
      rw [hl'] at hlist
      cases hlist
      exact shown_ok.2 (hrel p hp)
    exact ⟨folders, bind_ok.2 ⟨found, hfound, hfolders⟩⟩

/-- The search ends well if the folders are named relative to the project and by parts that lead down, and if they and all
that is in them can be asked about. -/
theorem find_runs (hp : disk.HasProject project place tree) {dirs : List Text}
    (hdown : ∀ dir ∈ dirs, Path.anchorOf dir = .here ∧ Path.Descends (Path.partsOf dir))
    (hasks : ∀ dir ∈ dirs, ∃ b, disk.isFolder (project.under dir).text = .ok b)
    (hbelow : ∀ dir ∈ dirs, ∀ d, disk.list (project.under dir).text = .ok d → CanAsk disk (project.under dir) (d.contents [])) :
    ∃ folders, find disk project dirs = .ok folders := by
  rw [find_ok]
  intro dir hdir
  obtain ⟨b, hb⟩ := hasks dir hdir
  cases b with
  | false => exact ⟨[], findBelow_ok.2 (.inl ⟨hb, rfl⟩), by simp⟩
  | true =>
    obtain ⟨d, hd⟩ := Disk.list_of_isFolder hb
    obtain ⟨top, hroot⟩ := Disk.list_ok.1 hd
    have hwf := Disk.wellFormed_of_resolve hp.wellFormed (hp.normal.under dir) hroot
    obtain ⟨hhere, hdesc⟩ := hdown dir hdir
    refine ⟨_, findBelow_ok.2 (.inr ⟨d, hb, hd, hbelow dir hdir d hd, rfl⟩), fun p hfound => ?_⟩
    obtain ⟨names, inside, -, -, -, rfl⟩ := (Dir.mem_emptyFolders hwf).1 hfound
    exact Scan.relative_below hhere names

/-- What is left can be asked about as it could before. -/
theorem CanAsk.without (hroot : disk.root.WellFormed) {gone : List Text → Bool} {root : Path} {d : Dir}
    (h : CanAsk disk root (d.contents [])) (top : List Text) :
    CanAsk (disk.without gone) root ((d.drop gone top).contents []) := by
  rintro ⟨parts, left⟩ hmem
  obtain ⟨e, he, -⟩ := Dir.mem_contents_left hmem
  rw [Disk.isFolder_without hroot]
  exact h (parts, e) he

/-- A lost file is one of the JSON files that the scan lists below an action folder. -/
theorem jsonFileAt?_of_lost (hlost : ∀ f ∈ lost, IsJsonFile tree f) {root : Path} {top names more : List Text} (hmore : more ≠ [])
    (hgone : placesOf place lost (top ++ names ++ more) = true) (b : Bytes) :
    Scan.jsonFileAt? disk root (names ++ more, .file b) = some ⟨root.anchor, root.parts ++ (names ++ more)⟩ := by
  obtain ⟨f, hf, hplace⟩ := placesOf_iff.1 hgone
  obtain ⟨hfile, hext⟩ := hlost f hf
  refine Scan.jsonFileAt?_eq_some.2 ⟨rfl, rfl, ?_⟩
  have hlast : more.getLast? = (Path.partsOf f).getLast? := by
    have := congrArg List.getLast? hplace
    rwa [List.getLast?_append_of_ne_nil _ hmore, List.getLast?_append_of_ne_nil _ hfile.nonempty] at this
  unfold Path.name?
  rw [← List.append_assoc, List.getLast?_append_of_ne_nil _ hmore, hlast]
  exact hext

/-- The search for folders without files ends well afterwards, if no action folder is far above the
project. -/
theorem find_without (hp : disk.HasProject project place tree)
    (hlost : ∀ f ∈ lost, IsJsonFile tree f) {dirs : List Text}
    (hfar : ∀ dir ∈ dirs, ¬ (project.under dir).FarAbove project)
    (hlists : ∀ dir ∈ dirs, disk.leadsToFolder (project.under dir).text = true →
      ∃ files, Scan.actionFiles disk project (project.under dir) = .ok files)
    (h : ∃ folders, find disk project dirs = .ok folders) :
    ∃ folders, find (disk.withoutFiles place lost) project dirs = .ok folders := by
  rw [find_ok] at h ⊢
  intro dir hdir
  obtain ⟨found, hfound, hrel⟩ := h dir hdir
  rcases findBelow_ok.1 hfound with ⟨hb, rfl⟩ | ⟨d, hb, hd, hasks, rfl⟩
  · exact ⟨[], findBelow_ok.2 (.inl ⟨by rw [Disk.isFolder_without hp.wellFormed, hb], rfl⟩), by simp⟩
  obtain ⟨top, hroot⟩ := Disk.list_ok.1 hd
  have hwf := Disk.wellFormed_of_resolve hp.wellFormed (hp.normal.under dir) hroot
  have hfolder : (disk.withoutFiles place lost).isFolder (project.under dir).text = .ok true := by
    rw [Disk.isFolder_without hp.wellFormed, hb]
  refine ⟨_, findBelow_ok.2 (.inr ⟨_, hfolder, Disk.list_without hp.wellFormed hroot, hasks.without hp.wellFormed top, rfl⟩),
    fun p hleft => ?_⟩
  obtain hbefore | ⟨names, more, b, hnames, hmore, rfl, hfile, hgone⟩ := Dir.emptyFolders_left hwf hleft
  · exact hrel p hbefore
  -- the scan shows the file that the folder has lost by its path in the project
  obtain ⟨files, hfiles⟩ := hlists dir hdir (by unfold Disk.leadsToFolder; rw [hb])
  obtain ⟨d', relative, hd', -, hshown, -⟩ := Scan.actionFiles_ok.1 hfiles
  rw [hd] at hd'
  cases hd'
  have hmem : (names ++ more, Entry.file b) ∈ d.contents [] :=
    (Dir.mem_contents hwf).2 ⟨names ++ more, by simp [hnames], rfl, hfile⟩
  obtain ⟨t, -, q, hq, -⟩ :=
    forall₂_mem_left hshown (List.mem_filterMap.2 ⟨_, hmem, jsonFileAt?_of_lost hlost hmore hgone b⟩)
  exact (Path.relative_or_farAbove hnames hq).resolve_right (hfar dir hdir)

end EmptyFolders

end ActionSweep
