/-
What the search for folders without files finds. Below each action folder these are all the folders in which there is
nothing but folders, each of them once, after the folders that are in it and in the order of names; and they are those
that look empty when they are looked at one by one.
-/
import ActionSweep.Proofs.Folders.Removal
import ActionSweep.Proofs.Scan.EmptyFolders
import ActionSweep.Proofs.Sample

namespace ActionSweep

/-! ## The order of a walk -/

/-- The order of a walk that meets siblings by their names, and a folder after all that is in it. -/
def MetBefore (p q : List Text) : Prop :=
  (∃ more, more ≠ [] ∧ p = q ++ more) ∨ ∃ front m n ps qs, m < n ∧ p = front ++ m :: ps ∧ q = front ++ n :: qs

theorem not_metBefore_self (p : List Text) : ¬ MetBefore p p := by
  rintro (⟨more, hne, h⟩ | ⟨front, m, n, ps, qs, hlt, h, h'⟩)
  · exact hne (List.self_eq_append_right.1 h)
  · have heq := List.append_cancel_left (h.symm.trans h')
    rw [(List.cons.inj heq).1] at hlt
    exact List.lt_irrefl n hlt

theorem nodup_of_metBefore {l : List (List Text)} (h : l.Pairwise MetBefore) : l.Nodup := by
  refine h.imp fun {p q} hpq he => ?_
  subst he
  exact not_metBefore_self p hpq

namespace Dir

variable {d tree : Dir} {path : Path} {rel : List Text}

/-- Folders without files are found in the order of a walk. -/
theorem emptyFolders_sorted : ∀ {d : Dir} {path : Path}, d.WellFormed →
    (d.emptyFolders path).Pairwise fun p q => MetBefore p.parts q.parts
  | .empty, _, _ => List.Pairwise.nil
  | .file _ _ rest, _, ⟨_, _, hrest⟩ | .link _ _ rest, _, ⟨_, _, hrest⟩ => emptyFolders_sorted (d := rest) hrest
  | .folder n inside rest, path, ⟨hn, hbelow, hinside, hrest⟩ => by
    -- what is found inside begins with the name, and what is found among the rest with a greater one
    have hfirst : ∀ p ∈ inside.emptyFolders (path.under n),
        ∃ names, names ≠ [] ∧ p.parts = path.parts ++ n :: names := by
      intro p hp
      obtain ⟨names, d, hne, -, -, rfl⟩ := (mem_emptyFolders hinside).1 hp
      exact ⟨names, hne, by simp [under_name path hn.part]⟩
    have hafter : ∀ p ∈ rest.emptyFolders path, ∃ m names, n < m ∧ p.parts = path.parts ++ m :: names := by
      intro p hp
      obtain ⟨names, d, hne, hfind, -, rfl⟩ := (mem_emptyFolders hrest).1 hp
      obtain ⟨m, names, rfl⟩ := List.exists_cons_of_ne_nil hne
      rw [find?_cons, Option.bind_eq_some_iff] at hfind
      obtain ⟨e, he, -⟩ := hfind
      exact ⟨m, names, hbelow m (mem_names_of_get? he), rfl⟩
    have hself : (path.under n).parts = path.parts ++ n :: [] := by rw [under_name path hn.part]
    have hleft : ∀ names : List Text, ∀ q ∈ rest.emptyFolders path, MetBefore (path.parts ++ n :: names) q.parts := by
      intro names q hq
      obtain ⟨m, more, hlt, hparts⟩ := hafter q hq
      exact .inr ⟨path.parts, n, m, names, more, hlt, rfl, hparts⟩
    rw [emptyFolders, List.pairwise_append, List.pairwise_append]
    refine ⟨⟨emptyFolders_sorted hinside, ?_, fun p hp q hq => ?_⟩, emptyFolders_sorted hrest, fun p hp q hq => ?_⟩
    · split
      · exact List.pairwise_singleton ..
      · exact List.Pairwise.nil
    · split at hq
      · obtain ⟨names, hne, hparts⟩ := hfirst p hp
        rw [List.mem_singleton.1 hq, hparts, hself]
        exact .inl ⟨names, hne, by simp⟩
      · cases hq
    · rcases List.mem_append.1 hp with hp | hp
      · obtain ⟨names, -, hparts⟩ := hfirst p hp
        rw [hparts]
        exact hleft names q hq
      · split at hp
        · rw [List.mem_singleton.1 hp, hself]
          exact hleft [] q hq
        · cases hp

/-- They are found by the same names behind every path. -/
theorem emptyFolders_behind (a : Anchor) (front : List Text) : ∀ {d : Dir} {parts : List Text}, d.WellFormed →
    d.emptyFolders ⟨a, front ++ parts⟩ = (d.emptyFolders ⟨.here, parts⟩).map fun p => ⟨a, front ++ p.parts⟩
  | .empty, _, _ => rfl
  | .file _ _ rest, _, ⟨_, _, hrest⟩ | .link _ _ rest, _, ⟨_, _, hrest⟩ => emptyFolders_behind a front (d := rest) hrest
  | .folder n inside rest, parts, ⟨hn, _, hinside, hrest⟩ => by
    rw [emptyFolders, emptyFolders, under_name _ hn.part, under_name _ hn.part, List.append_assoc front,
      emptyFolders_behind a front hinside, emptyFolders_behind a front hrest, List.map_append, List.map_append]
    split <;> rfl

/-- A folder stands at a path, and there are only folders in it. -/
def OnlyFoldersAt (tree : Dir) (path : List Text) : Prop :=
  tree.FolderAt path ∧ ∀ more e, tree.find? (path ++ more) = some e → ∃ inside, e = .folder inside

theorem onlyFoldersAt_iff (hd : tree.WellFormed) : tree.OnlyFoldersAt rel ↔
    ∃ inside, tree.find? rel = some (.folder inside) ∧ inside.holdsNoFile = true := by
  constructor
  · rintro ⟨⟨inside, hinside⟩, honly⟩
    refine ⟨inside, hinside, (holdsNoFile_iff ((hd.find? hinside).2 inside rfl)).2 fun more e he => honly more e ?_⟩
    rw [find?_inside hinside, he]
  · rintro ⟨inside, hinside, hempty⟩
    refine ⟨⟨inside, hinside⟩, fun more e he => ?_⟩
    rw [find?_inside hinside] at he
    exact (holdsNoFile_iff ((hd.find? hinside).2 inside rfl)).1 hempty more e he

end Dir

namespace EmptyFolders

variable {disk : Disk} {project : Path} {place : List Text} {tree : Dir} {roots : List Text} {root : Text}

/-! ## Looking at one folder -/

/-- A folder looks empty exactly if it holds no file, when all paths in it can be asked about. -/
theorem lookInto_eq : ∀ {d : Dir} {path : Path}, d.WellFormed →
    (∀ names e, names ≠ [] → d.find? names = some e →
      (Utf8.encode (Path.mk path.anchor (path.parts ++ names)).text).length ≤ Disk.pathLimit) →
    lookInto path d = .ok d.holdsNoFile
  | .empty, _, _, _ => rfl
  | .file n _ rest, path, ⟨hn, _, _⟩, h | .link n _ rest, path, ⟨hn, _, _⟩, h => by
    have hshort := h [n] _ (List.cons_ne_nil n []) (by rw [Dir.find?_singleton, Dir.get?, if_pos rfl])
    rw [← Dir.under_name path hn.part, ← askAbout_ok (u := ())] at hshort
    rw [lookInto, hshort]
    rfl
  | .folder n inside rest, path, ⟨hn, hbelow, hinside, hrest⟩, h => by
    have hfirst : ∀ names e, inside.find? names = some e →
        (Utf8.encode (Path.mk path.anchor (path.parts ++ n :: names)).text).length ≤ Disk.pathLimit := by
      intro names e he
      refine h (n :: names) e (List.cons_ne_nil n names) ?_
      rw [Dir.find?_folder, if_pos rfl, he]
    have hshort := hfirst [] _ rfl
    rw [← Dir.under_name path hn.part, ← askAbout_ok (u := ())] at hshort
    have hlook : lookInto (path.under n) inside = .ok inside.holdsNoFile := by
      refine lookInto_eq hinside fun names e _ he => ?_
      rw [Dir.under_name path hn.part, List.append_assoc]
      exact hfirst names e he
    have hafter : lookInto path rest = .ok rest.holdsNoFile := by
      refine lookInto_eq hrest fun names e hne he => h names e hne ?_
      exact Dir.find?_of_rest (e := .folder inside) hbelow hne he
    rw [lookInto, hshort, Dir.holdsNoFile]
    show (lookInto (path.under n) inside >>= fun b => if b then lookInto path rest else return false) = _
    rw [hlook, hafter]
    cases inside.holdsNoFile with
    | false => rfl
    | true => rfl

/-! ## Looking for all of them -/

/-- Action folders that are named from the project on, by parts that lead down, and pass no link; none of them is
inside another one. -/
structure Apart (tree : Dir) (roots : List Text) : Prop where
  here : ∀ root ∈ roots, Path.anchorOf root = .here
  down : ∀ root ∈ roots, (['.', '.'] : Text) ∉ Path.partsOf root
  plain : ∀ root ∈ roots, tree.NoLinkTo (Path.partsOf root)
  apart : roots.Pairwise fun r s => ¬ Path.partsOf r <+: Path.partsOf s ∧ ¬ Path.partsOf s <+: Path.partsOf r

/-- An action folder, and all that stands in it, can be asked about. -/
def Answers (disk : Disk) (project : Path) (tree : Dir) (root : Text) : Prop :=
  ∀ names, names = [] ∨ (∃ e, tree.find? (Path.partsOf root ++ names) = some e) →
    ∃ b, disk.isFolder (Path.mk project.anchor (project.parts ++ (Path.partsOf root ++ names))).text = .ok b

/-- A folder as it is found, by its path from the project on. -/
def folderAt (project : Path) (rel : List Text) : EmptyFolder :=
  ⟨(Path.mk project.anchor (project.parts ++ rel)).text, (Path.mk .here rel).text⟩

/-- The folders without files below an action folder, by their paths from the project on. -/
def foundBelow (tree : Dir) (root : Text) : List (List Text) :=
  match tree.find? (Path.partsOf root) with
  | some (.folder d) => (d.emptyFolders ⟨.here, Path.partsOf root⟩).map Path.parts
  | _ => []

theorem mem_foundBelow (htree : tree.WellFormed) {rel : List Text} : rel ∈ foundBelow tree root ↔
    (∃ names, names ≠ [] ∧ rel = Path.partsOf root ++ names) ∧ tree.OnlyFoldersAt rel := by
  rw [Dir.onlyFoldersAt_iff htree]
  unfold foundBelow
  split
  · rename_i d hd
    rw [List.mem_map]
    constructor
    · rintro ⟨p, hp, rfl⟩
      obtain ⟨names, inside, hne, hfind, hempty, rfl⟩ := (Dir.mem_emptyFolders ((htree.find? hd).2 d rfl)).1 hp
      exact ⟨⟨names, hne, rfl⟩, inside, (Dir.find?_inside hd names).trans hfind, hempty⟩
    · rintro ⟨⟨names, hne, rfl⟩, inside, hfind, hempty⟩
      rw [Dir.find?_inside hd] at hfind
      exact ⟨⟨.here, Path.partsOf root ++ names⟩,
        (Dir.mem_emptyFolders ((htree.find? hd).2 d rfl)).2 ⟨names, inside, hne, hfind, hempty, rfl⟩, rfl⟩
  · rename_i hno
    refine iff_of_false (List.not_mem_nil) ?_
    rintro ⟨⟨names, hne, rfl⟩, inside, hfind, -⟩
    obtain ⟨d, hd, -⟩ := Dir.find?_folder_of_append hne hfind
    exact hno d hd

theorem foundBelow_sorted (htree : tree.WellFormed) (root : Text) : (foundBelow tree root).Pairwise MetBefore := by
  unfold foundBelow
  split
  · rename_i d hd
    rw [List.pairwise_map]
    exact Dir.emptyFolders_sorted ((htree.find? hd).2 d rfl)
  · exact List.Pairwise.nil

theorem Apart.descends (hroots : Apart tree roots) (hroot : root ∈ roots) : Path.Descends (Path.partsOf root) :=
  fun _ hp => ⟨Path.isPart_of_mem_partsOf hp, fun he => hroots.down root hroot (he ▸ hp)⟩

theorem Apart.under (hroots : Apart tree roots) (hroot : root ∈ roots) :
    project.under root = ⟨project.anchor, project.parts ++ Path.partsOf root⟩ := if_pos (hroots.here root hroot)

/-- Nothing is found below two of the action folders, nor twice below one. -/
theorem Apart.nodup (htree : tree.WellFormed) (hroots : Apart tree roots) : (roots.flatMap (foundBelow tree)).Nodup := by
  rw [List.nodup_flatMap]
  refine ⟨fun root _ => nodup_of_metBefore (foundBelow_sorted htree root), hroots.apart.imp fun {r s} hapart rel hr hs => ?_⟩
  obtain ⟨⟨names, -, rfl⟩, -⟩ := (mem_foundBelow htree).1 hr
  obtain ⟨⟨names', -, hrel⟩, -⟩ := (mem_foundBelow htree).1 hs
  rcases List.prefix_or_prefix_of_prefix (List.prefix_append _ names) (hrel ▸ List.prefix_append _ names') with hpre | hpre
  · exact hapart.1 hpre
  · exact hapart.2 hpre

/-- It is enough to ask about the action folder and about all that is in the project. -/
theorem answers_of_contents (htree : tree.WellFormed)
    (hself : ∃ b, disk.isFolder (Path.mk project.anchor (project.parts ++ Path.partsOf root)).text = .ok b)
    (hall : ∀ x ∈ tree.contents [], ∃ b, disk.isFolder (Path.mk project.anchor (project.parts ++ x.1)).text = .ok b) :
    Answers disk project tree root := by
  rintro names (rfl | ⟨e, he⟩)
  · rwa [List.append_nil]
  · by_cases hne : Path.partsOf root ++ names = []
    · rwa [hne, ← (List.append_eq_nil_iff.1 hne).1]
    · exact hall (_, e) ((Dir.mem_contents htree).2 ⟨_, hne, rfl, he⟩)

/-- What is in an action folder can be asked about by its path from the folder on exactly if it can be by the path from the
project on. -/
theorem answers_iff (htree : tree.WellFormed) {d : Dir} (hd : tree.find? (Path.partsOf root) = some (.folder d)) :
    Answers disk project tree root ↔
      (∃ b, disk.isFolder (Path.mk project.anchor (project.parts ++ Path.partsOf root)).text = .ok b) ∧
        CanAsk disk ⟨project.anchor, project.parts ++ Path.partsOf root⟩ (d.contents []) := by
  have hwf := (htree.find? hd).2 d rfl
  constructor
  · intro h
    refine ⟨?_, fun x hx => ?_⟩
    · have hself := h [] (.inl rfl)
      rwa [List.append_nil] at hself
    · obtain ⟨parts, e⟩ := x
      obtain ⟨_, -, rfl, he⟩ := (Dir.mem_contents hwf).1 hx
      have hask := h parts (.inr ⟨e, (Dir.find?_inside hd parts).trans he⟩)
      rwa [← List.append_assoc] at hask
  · rintro ⟨hself, hall⟩ names hnames
    by_cases hne : names = []
    · rwa [hne, List.append_nil]
    · obtain ⟨e, he⟩ := hnames.resolve_left hne
      rw [Dir.find?_inside hd] at he
      rw [← List.append_assoc]
      exact hall (names, e) ((Dir.mem_contents hwf).2 ⟨names, hne, rfl, he⟩)

section Below

variable (h : disk.HasTree project place tree)
include h

/-- What stands at or in an action folder has a path that is not too long, if it can be asked about. -/
theorem Answers.short (hasks : Answers disk project tree root) {names : List Text} {e : Entry}
    (he : tree.find? (Path.partsOf root ++ names) = some e) :
    (Utf8.encode (Path.mk project.anchor (project.parts ++ (Path.partsOf root ++ names))).text).length ≤ Disk.pathLimit := by
  obtain ⟨b, hb⟩ := hasks names (.inr ⟨e, he⟩)
  have hnames := (h.tree_wellFormed.find? he).1
  exact Disk.short_of_asks (Disk.normal_below h.normal hnames) (h.zero_not_mem hnames) hb

/-- What can be asked about can be listed, if it is a folder. -/
theorem Answers.list (hasks : Answers disk project tree root) {names : List Text} {d : Dir}
    (hd : tree.find? (Path.partsOf root ++ names) = some (.folder d)) :
    disk.isFolder (Path.mk project.anchor (project.parts ++ (Path.partsOf root ++ names))).text = .ok true ∧
      disk.list (Path.mk project.anchor (project.parts ++ (Path.partsOf root ++ names))).text = .ok d := by
  obtain ⟨b, hb⟩ := hasks names (.inr ⟨_, hd⟩)
  have hnames := (h.tree_wellFormed.find? hd).1
  obtain ⟨rfl, hlist⟩ :=
    Disk.folder_of_isFolder (Disk.normal_below h.normal hnames) (h.zero_not_mem hnames) (h.leads_folder hd) hb
  exact ⟨hb, hlist⟩

/-- A folder in an action folder looks empty exactly if there are only folders in it. -/
theorem Answers.looksEmpty (hasks : Answers disk project tree root) {names : List Text}
    (hfolder : tree.FolderAt (Path.partsOf root ++ names)) :
    ∃ b, looksEmpty disk ⟨project.anchor, project.parts ++ (Path.partsOf root ++ names)⟩ = .ok b ∧
      (b = true ↔ tree.OnlyFoldersAt (Path.partsOf root ++ names)) := by
  obtain ⟨inside, hinside⟩ := hfolder
  have hlook : lookInto ⟨project.anchor, project.parts ++ (Path.partsOf root ++ names)⟩ inside = .ok inside.holdsNoFile := by
    refine lookInto_eq ((h.tree_wellFormed.find? hinside).2 inside rfl) fun more e _ he => ?_
    have hfind : tree.find? (Path.partsOf root ++ (names ++ more)) = some e := by
      rw [← List.append_assoc, Dir.find?_inside hinside, he]
    have hshort := hasks.short h hfind
    rwa [← List.append_assoc (Path.partsOf root), ← List.append_assoc project.parts] at hshort
  refine ⟨inside.holdsNoFile, ?_, ?_⟩
  · unfold EmptyFolders.looksEmpty
    rw [(hasks.list h hinside).2]
    exact hlook
  · rw [Dir.onlyFoldersAt_iff h.tree_wellFormed, hinside]
    simp

/-- An action folder that can be asked about is one, and can be listed, exactly if it stands in the project. -/
theorem isFolder_root (hroots : Apart tree roots) (hroot : root ∈ roots) {b : Bool}
    (hb : disk.isFolder (Path.mk project.anchor (project.parts ++ Path.partsOf root)).text = .ok b) :
    match tree.find? (Path.partsOf root) with
    | some (.folder d) => b = true ∧ disk.list (Path.mk project.anchor (project.parts ++ Path.partsOf root)).text = .ok d
    | _ => b = false := by
  have hnormal := h.normal.under root
  rw [hroots.under hroot] at hnormal
  split
  · rename_i d hd
    exact Disk.folder_of_isFolder hnormal (h.zero_not_mem (h.tree_wellFormed.find? hd).1) (h.leads_folder hd) hb
  · rename_i hno
    cases b with
    | false => rfl
    | true =>
      obtain ⟨d, hlist⟩ := Disk.list_of_isFolder hb
      obtain ⟨top, hresolve⟩ := Disk.list_ok.1 hlist
      have hleads := ((Disk.resolve_text_ok hnormal).1 hresolve).2
      exact absurd ((h.leads_folder_iff (hroots.descends hroot) (hroots.plain root hroot)).1 hleads).2 (hno d)

/-- The search below one action folder. -/
theorem findBelow_iff (hroots : Apart tree roots) (hroot : root ∈ roots) {found : List Path} :
    findBelow disk (project.under root) = .ok found ↔ Answers disk project tree root ∧
      found = (foundBelow tree root).map fun rel => ⟨project.anchor, project.parts ++ rel⟩ := by
  rw [hroots.under hroot, findBelow_ok]
  constructor
  · rintro (⟨hb, rfl⟩ | ⟨d, hb, hlist, hasks, rfl⟩)
    · have hself := isFolder_root h hroots hroot hb
      unfold foundBelow
      split at hself
      · cases hself.1
      · rename_i hno
        refine ⟨fun names hnames => ?_, rfl⟩
        by_cases hne : names = []
        · rw [hne, List.append_nil]
          exact ⟨false, hb⟩
        · obtain ⟨e, he⟩ := hnames.resolve_left hne
          obtain ⟨d, hd, -⟩ := Dir.find?_folder_of_append hne he
          exact absurd hd (hno d)
    · have hself := isFolder_root h hroots hroot hb
      unfold foundBelow
      split at hself
      · rename_i e he
        rw [hlist] at hself
        cases hself.2
        refine ⟨(answers_iff h.tree_wellFormed he).2 ⟨⟨true, hb⟩, hasks⟩, ?_⟩
        rw [List.map_map, Dir.emptyFolders_behind _ _ ((h.tree_wellFormed.find? he).2 d rfl)]
        rfl
      · cases hself
  · rintro ⟨hasks, rfl⟩
    obtain ⟨b, hb⟩ := hasks [] (.inl rfl)
    rw [List.append_nil] at hb
    have hself := isFolder_root h hroots hroot hb
    unfold foundBelow
    split at hself
    · rename_i d hd
      obtain ⟨rfl, hlist⟩ := hself
      refine .inr ⟨d, hb, hlist, ((answers_iff h.tree_wellFormed hd).1 hasks).2, ?_⟩
      rw [List.map_map, Dir.emptyFolders_behind _ _ ((h.tree_wellFormed.find? hd).2 d rfl)]
      rfl
    · subst hself
      exact .inl ⟨hb, rfl⟩

/-- The whole search. -/
theorem find_eq (hroots : Apart tree roots) (hasks : ∀ root ∈ roots, Answers disk project tree root) :
    find disk project roots = .ok ((roots.flatMap (foundBelow tree)).map (folderAt project)) := by
  unfold find
  rw [Outcome.bind_ok]
  refine ⟨_, Outcome.mapM_eq fun root hroot => (findBelow_iff h hroots hroot).2 ⟨hasks root hroot, rfl⟩, ?_⟩
  rw [← List.flatMap_def, ← List.map_flatMap, Outcome.mapM_ok, List.forall₂_map_left_iff, List.forall₂_map_right_iff,
    List.forall₂_same]
  intro rel _
  have hrelative : Path.relativeTo? project ⟨project.anchor, project.parts ++ rel⟩ = some ⟨.here, rel⟩ :=
    Path.relativeTo?_eq_some.2 ⟨rfl, rfl⟩
  unfold shown
  rw [hrelative]
  rfl

/-- What a search that ended well has asked and found. -/
theorem found_eq {found : List EmptyFolder} (hroots : Apart tree roots) (hfound : find disk project roots = .ok found) :
    (∀ root ∈ roots, Answers disk project tree root) ∧
      found = (roots.flatMap (foundBelow tree)).map (folderAt project) := by
  have hasks : ∀ root ∈ roots, Answers disk project tree root := by
    intro root hroot
    obtain ⟨l, hl, -⟩ := find_ok.1 ⟨found, hfound⟩ root hroot
    exact ((findBelow_iff h hroots hroot).1 hl).1
  rw [find_eq h hroots hasks] at hfound
  cases hfound
  exact ⟨hasks, rfl⟩

/-- Folders that are found have different paths. -/
theorem nodup_paths {rels : List (List Text)} (hrels : rels.Nodup) (hnames : ∀ rel ∈ rels, ∃ e, tree.find? rel = some e) :
    ((rels.map (folderAt project)).map EmptyFolder.path).Nodup := by
  rw [List.map_map]
  refine List.Nodup.map_on (fun r hr s hs heq => ?_) hrels
  obtain ⟨e, he⟩ := hnames r hr
  obtain ⟨f, hf⟩ := hnames s hs
  have hpath := congrArg Path.ofText heq
  simp only [Function.comp_apply, folderAt] at hpath
  rw [Path.ofText_text (Disk.normal_below h.normal (h.tree_wellFormed.find? he).1),
    Path.ofText_text (Disk.normal_below h.normal (h.tree_wellFormed.find? hf).1)] at hpath
  exact List.append_cancel_left (Path.mk.inj hpath).2

end Below

/-- What the search reports of one action folder: every folder in it in which there are only folders, and no other; each
one after the folders in it and in the order of names. A folder that stands there is among them exactly if it looks
empty. -/
structure Exact (disk : Disk) (project : Path) (tree : Dir) (root : Text) (found : List (List Text)) : Prop where
  mem_iff : ∀ rel, rel ∈ found ↔ (∃ names, names ≠ [] ∧ rel = Path.partsOf root ++ names) ∧ tree.OnlyFoldersAt rel
  sorted : found.Pairwise MetBefore
  looks : ∀ names, names ≠ [] → tree.FolderAt (Path.partsOf root ++ names) →
    ∃ b, looksEmpty disk ⟨project.anchor, project.parts ++ (Path.partsOf root ++ names)⟩ = .ok b ∧
      (b = true ↔ Path.partsOf root ++ names ∈ found)

/-- A search ends well exactly if the action folders and all that stands in them can be asked about. Then it is exact below
each action folder, takes them in their order, and shows no folder twice. -/
theorem find_exact (h : disk.HasTree project place tree) (hroots : Apart tree roots) :
    ((∃ folders, find disk project roots = .ok folders) ↔ ∀ root ∈ roots, Answers disk project tree root) ∧
    ((∀ root ∈ roots, Answers disk project tree root) →
      ∃ found : Text → List (List Text), find disk project roots = .ok ((roots.flatMap found).map (folderAt project)) ∧
        (((roots.flatMap found).map (folderAt project)).map EmptyFolder.path).Nodup ∧
        ∀ root ∈ roots, Exact disk project tree root (found root)) := by
  have htree := h.tree_wellFormed
  refine ⟨⟨fun ⟨_, hfound⟩ => (found_eq h hroots hfound).1, fun hasks => ⟨_, find_eq h hroots hasks⟩⟩, fun hasks => ?_⟩
  refine ⟨foundBelow tree, find_eq h hroots hasks,
    nodup_paths h (hroots.nodup htree) fun rel hrel => ?_, fun root hroot => ?_⟩
  · obtain ⟨root, -, hfound⟩ := List.mem_flatMap.1 hrel
    obtain ⟨-, ⟨inside, hinside⟩, -⟩ := (mem_foundBelow htree).1 hfound
    exact ⟨_, hinside⟩
  · refine ⟨fun rel => mem_foundBelow htree, foundBelow_sorted htree root, fun names hne hfolder => ?_⟩
    obtain ⟨b, hlook, hb⟩ := (hasks root hroot).looksEmpty h hfolder
    refine ⟨b, hlook, ?_⟩
    rw [hb, mem_foundBelow htree, and_iff_right ⟨names, hne, rfl⟩]

theorem sample_find_exact : Sample.mixedDisk.HasTree Sample.project ["p"] Sample.mixedTree ∧
    Apart Sample.mixedTree Sample.searched ∧
    (∀ root ∈ Sample.searched, Answers Sample.mixedDisk Sample.project Sample.mixedTree root) ∧
    ∃ found : Text → List (List Text), find Sample.mixedDisk Sample.project Sample.searched =
        .ok ((Sample.searched.flatMap found).map (folderAt Sample.project)) ∧
      (((Sample.searched.flatMap found).map (folderAt Sample.project)).map EmptyFolder.path).Nodup ∧
      ∀ root ∈ Sample.searched, Exact Sample.mixedDisk Sample.project Sample.mixedTree root
        (found root) := by
  have htree : Sample.mixedDisk.HasTree Sample.project ["p"] Sample.mixedTree :=
    ⟨by decide +kernel, by decide +kernel, by decide +kernel⟩
  have hroots : Apart Sample.mixedTree Sample.searched :=
    ⟨by decide +kernel, by decide +kernel, by decide +kernel, by decide +kernel⟩
  have hall : ∀ x ∈ Sample.mixedTree.contents [],
      ∃ b, Sample.mixedDisk.isFolder (Path.mk Sample.project.anchor (Sample.project.parts ++ x.1)).text = .ok b := by
    decide +kernel
  have hself : ∀ root ∈ Sample.searched, ∃ b, Sample.mixedDisk.isFolder
      (Path.mk Sample.project.anchor (Sample.project.parts ++ Path.partsOf root)).text = .ok b := by
    decide +kernel
  have hasks : ∀ root ∈ Sample.searched, Answers Sample.mixedDisk Sample.project Sample.mixedTree root :=
    fun root hroot => answers_of_contents htree.tree_wellFormed (hself root hroot) hall
  exact ⟨htree, hroots, hasks, (find_exact htree hroots).2 hasks⟩

/-- With an action folder whose name is too long the search ends in a fault, and finds none of the folders below the other
one. -/
theorem longName_stops_search :
    (Sample.foldersDisk Sample.oneEmpty).HasTree Sample.project ["p"] (Sample.foldersTree Sample.oneEmpty) ∧
      Apart (Sample.foldersTree Sample.oneEmpty) ["app/api", Sample.longName] ∧
      (Sample.foldersTree Sample.oneEmpty).OnlyFoldersAt ["app", "api", "e"] ∧
      ∃ f, find (Sample.foldersDisk Sample.oneEmpty) Sample.project ["app/api", Sample.longName] = .error f ∧
        f.isFile = true := by
  have htree : (Sample.foldersDisk Sample.oneEmpty).HasTree Sample.project ["p"]
      (Sample.foldersTree Sample.oneEmpty) := ⟨by decide +kernel, by decide +kernel, by decide +kernel⟩
  refine ⟨htree, ⟨by decide +kernel, by decide +kernel, by decide +kernel, by decide +kernel⟩, ?_, ?_⟩
  · exact (Dir.onlyFoldersAt_iff htree.tree_wellFormed).2 ⟨.empty, by decide +kernel, rfl⟩
  · exact Outcome.error_of_check (by decide +kernel)

end EmptyFolders

end ActionSweep
