/-
The JSON files below an action folder. If the names of the action folders have no two dots in them,
what a scan lists below them stands in the project, at the parts of the text under which it is listed,
and a file that declares an action is a file of the project. The files of one folder are listed once each,
in the order of their paths.
-/
import ActionSweep.Proofs.Files.Listing
import ActionSweep.Proofs.Scan.Declared

namespace ActionSweep

open Outcome (bind_ok mapM_ok)
open ActionSweep.Path (Descends IsPart)

/-- A document that can be read stands in a file. -/
theorem Disk.found_of_readJson {disk : Disk} {path : Path} {v : Value} (h : disk.readJson path = .ok v) :
    ∃ spot b, disk.resolve .target path.text = .ok (.found spot (.file b)) := by
  unfold readJson at h
  obtain ⟨b, hb, -⟩ := bind_ok.1 h
  obtain ⟨spot, hr⟩ := read_ok.1 hb
  exact ⟨spot, b, hr⟩

theorem Disk.present_of_readJson {disk : Disk} {path : Path} {v : Value} (h : disk.readJson path = .ok v) :
    disk.present path.text = .ok true := by
  obtain ⟨spot, b, hr⟩ := found_of_readJson h
  unfold present test
  rw [hr]

/-- A document that can be read is that of some text. -/
theorem Disk.text_of_readJson {disk : Disk} {path : Path} {v : Value} (h : disk.readJson path = .ok v) :
    ∃ t, Json.readWithin disk.around.nesting t = .ok v := by
  unfold readJson at h
  obtain ⟨bytes, -, h⟩ := bind_ok.1 h
  obtain ⟨text, -, h⟩ := bind_ok.1 h
  exact ⟨text.unifyLines, Outcome.mapError_ok.1 h⟩

/-- A JSON file of a project. -/
def IsJsonFile (tree : Dir) (file : Text) : Prop :=
  IsProjectFile tree file ∧ Key.extension.isSuffixOf ((Path.partsOf file).getLast?.getD []) = true

/-! ## The order of a walk -/

namespace Dir

/-- What stands directly in a folder. -/
def direct (path : List Text) (d : Dir) : List (List Text × Entry) := d.entries.map fun x => (path ++ [x.1], x.2)

/-- What stands inside the folders of a folder, that directly in one before that inside its folders. -/
def inner (path : List Text) : Dir → List (List Text × Entry)
  | empty => []
  | file _ _ rest | link _ _ rest => rest.inner path
  | folder n d rest => d.direct (path ++ [n]) ++ d.inner (path ++ [n]) ++ rest.inner path

/-- A walk meets the contents of a folder in an order of its own. -/
theorem walk_perm : ∀ (d : Dir) (path : List Text), (d.direct path ++ d.inner path).Perm (d.contents path)
  | empty, _ => .refl _
  | file n b rest, path => by
    rw [direct, inner, contents]
    exact (walk_perm rest path).cons (path ++ [n], .file b)
  | link n t rest, path => by
    rw [direct, inner, contents]
    exact (walk_perm rest path).cons (path ++ [n], .link t)
  | folder n d rest, path => by
    have hmoved : (rest.direct path ++ (d.direct (path ++ [n]) ++ d.inner (path ++ [n]) ++ rest.inner path)).Perm
        (d.direct (path ++ [n]) ++ d.inner (path ++ [n]) ++ (rest.direct path ++ rest.inner path)) := by
      rw [← List.append_assoc, ← List.append_assoc (d.direct _ ++ d.inner _)]
      exact List.perm_append_comm.append_right _
    rw [direct, inner, contents]
    exact (hmoved.trans ((walk_perm d (path ++ [n])).append (walk_perm rest path))).cons (path ++ [n], .folder d)

end Dir

theorem Path.inside_below (root : Path) (folder : List Text) (n : Text) :
    Path.inside ⟨root.anchor, root.parts ++ folder⟩ n = ⟨root.anchor, root.parts ++ (folder ++ [n])⟩ := by
  rw [← List.append_assoc]
  rfl

/-- What a path goes on with is what there is of it relative to the path. -/
theorem Path.relativeTo?_below {p q : Path} {parts : List Text} :
    relativeTo? p ⟨p.anchor, p.parts ++ parts⟩ = some q ↔ q = ⟨.here, parts⟩ := by
  rw [relativeTo?_eq_some]
  obtain ⟨anchor, qparts⟩ := q
  constructor
  · rintro ⟨hparts, hanchor⟩
    rw [List.append_cancel_left (congrArg Path.parts hparts), show anchor = .here from hanchor]
  · intro h
    cases h
    exact ⟨rfl, rfl⟩

namespace Scan

/-! ## Below one folder -/

/-- Whether an entry of an action folder counts as a file. -/
def listed (disk : Disk) (path : Path) : Entry → Bool
  | .file _ => true
  | .link _ => !disk.leadsToFolder path.text
  | .folder _ => false

/-- The path of a JSON file among the contents of an action folder. -/
def jsonFileAt? (disk : Disk) (root : Path) (x : List Text × Entry) : Option Path :=
  let path : Path := ⟨root.anchor, root.parts ++ x.1⟩
  if listed disk path x.2 && Key.extension.isSuffixOf (path.name?.getD []) then some path else none

/-- A path and its text relative to the project. -/
def Relative (project p : Path) (t : Text) : Prop := ∃ q, Path.relativeTo? project p = some q ∧ t = q.text

/-- The folders among the contents of an action folder can be listed. -/
def CanEnter (disk : Disk) (root : Path) (contents : List (List Text × Entry)) : Prop :=
  ∀ parts inside, (parts, Entry.folder inside) ∈ contents →
    ∃ d, disk.list (Path.mk root.anchor (root.parts ++ parts)).text = .ok d

variable {disk : Disk} {project root : Path}

theorem relative_ok {p : Path} {t : Text} : relative project p = .ok t ↔ Relative project p t := by
  unfold relative Relative
  constructor
  · intro h
    split at h
    · rename_i q hq
      cases h
      exact ⟨q, hq, rfl⟩
    · cases h
  · rintro ⟨q, hq, rfl⟩
    rw [hq]

theorem enter_ok {folder : Path} {d : Dir} : enter disk project folder = .ok d ↔ disk.list folder.text = .ok d := by
  unfold enter
  split
  · rename_i f hf
    rw [hf]
    exact iff_of_false nofun nofun
  · exact Iff.rfl

/-- Only folders are entered. -/
theorem canEnter_leaf {x : List Text × Entry} {contents : List (List Text × Entry)} (hx : ∀ inside, x.2 ≠ .folder inside) :
    CanEnter disk root (x :: contents) ↔ CanEnter disk root contents := by
  refine ⟨fun h parts inside hmem => h parts inside (List.mem_cons_of_mem _ hmem), fun h parts inside hmem => ?_⟩
  obtain rfl | hmem := List.mem_cons.1 hmem
  · exact absurd rfl (hx inside)
  · exact h parts inside hmem

theorem jsonFile?_eq (folder : List Text) (x : Text × Entry) :
    jsonFile? disk ⟨root.anchor, root.parts ++ folder⟩ x = jsonFileAt? disk root (folder ++ [x.1], x.2) := by
  obtain ⟨n, e⟩ := x
  have hname : Path.name? ⟨root.anchor, root.parts ++ (folder ++ [n])⟩ = some n := by
    rw [← List.append_assoc]
    exact List.getLast?_concat
  simp only [jsonFile?, jsonFileAt?, Path.inside, List.append_assoc, hname, Option.getD_some]
  cases e <;> rfl

theorem jsonFilesIn_eq (folder : List Text) (d : Dir) :
    jsonFilesIn disk project ⟨root.anchor, root.parts ++ folder⟩ d =
      ((d.direct folder).filterMap (jsonFileAt? disk root)).mapM (relative project) := by
  rw [jsonFilesIn, Dir.direct, List.filterMap_map]
  exact congrArg (List.mapM (relative project)) (List.filterMap_congr fun x _ => jsonFile?_eq folder x)

theorem mapM_append_ok {α β ε : Type} {f : α → Except ε β} {l m : List α} {ys : List β} :
    (l ++ m).mapM f = .ok ys ↔ ∃ a b, l.mapM f = .ok a ∧ m.mapM f = .ok b ∧ ys = a ++ b := by
  rw [List.mapM_append, bind_ok]
  constructor
  · rintro ⟨a, ha, h⟩
    obtain ⟨b, hb, h⟩ := bind_ok.1 h
    cases h
    exact ⟨a, b, ha, hb, rfl⟩
  · rintro ⟨a, b, ha, hb, rfl⟩
    exact ⟨a, ha, bind_ok.2 ⟨b, hb, rfl⟩⟩

/-- What the folders inside a folder give: they can be listed, and what is found in them lies in the project. -/
theorem jsonFilesBelow_ok : ∀ {d : Dir} {folder : List Text} {files : List Text},
    jsonFilesBelow disk project ⟨root.anchor, root.parts ++ folder⟩ d = .ok files ↔ CanEnter disk root (d.contents folder) ∧
      ((d.inner folder).filterMap (jsonFileAt? disk root)).mapM (relative project) = .ok files
  | .empty, _, _ => (and_iff_right (by rintro _ _ ⟨⟩)).symm
  | .file n b rest, folder, files => by
    rw [jsonFilesBelow, jsonFilesBelow_ok, Dir.contents, canEnter_leaf (by rintro _ ⟨⟩), Dir.inner]
  | .link n t rest, folder, files => by
    rw [jsonFilesBelow, jsonFilesBelow_ok, Dir.contents, canEnter_leaf (by rintro _ ⟨⟩), Dir.inner]
  | .folder n d rest, folder, files => by
    have henter : CanEnter disk root ((Dir.folder n d rest).contents folder) ↔
        (∃ d', disk.list (Path.mk root.anchor (root.parts ++ (folder ++ [n]))).text = .ok d') ∧
          CanEnter disk root (d.contents (folder ++ [n])) ∧ CanEnter disk root (rest.contents folder) := by
      simp only [CanEnter, Dir.contents, List.mem_cons, List.mem_append, Prod.mk.injEq, Entry.folder.injEq, or_imp, forall_and,
        and_imp, forall_eq, forall_eq_apply_imp_iff]
    rw [henter, jsonFilesBelow, Path.inside_below, bind_ok, Dir.inner, List.filterMap_append, List.filterMap_append]
    simp only [bind_ok, enter_ok, jsonFilesIn_eq, jsonFilesBelow_ok, mapM_append_ok]
    constructor
    · rintro ⟨d', hd', direct, hdirect, below, ⟨hbelow, hinner⟩, others, ⟨hothers, hrest⟩, h⟩
      cases h
      exact ⟨⟨⟨d', hd'⟩, hbelow, hothers⟩, _, _, ⟨_, _, hdirect, hinner, rfl⟩, hrest, rfl⟩
    · rintro ⟨⟨⟨d', hd'⟩, hbelow, hothers⟩, _, others, ⟨direct, below, hdirect, hinner, rfl⟩, hrest, rfl⟩
      exact ⟨d', hd', direct, hdirect, below, ⟨hbelow, hinner⟩, others, ⟨hothers, hrest⟩, rfl⟩

theorem actionFiles_ok {files : List Text} :
    actionFiles disk project root = .ok files ↔ ∃ d relative, disk.list root.text = .ok d ∧
      CanEnter disk root (d.contents []) ∧
      List.Forall₂ (Relative project) ((d.contents []).filterMap (jsonFileAt? disk root)) relative ∧
      files = Text.sort relative := by
  have hin : ∀ d, jsonFilesIn disk project root d = ((d.direct []).filterMap (jsonFileAt? disk root)).mapM (relative project) := by
    intro d
    have h : jsonFilesIn disk project ⟨root.anchor, root.parts ++ []⟩ d = _ := jsonFilesIn_eq [] d
    rwa [List.append_nil] at h
  have hbelow : ∀ {d files}, jsonFilesBelow disk project root d = .ok files ↔ CanEnter disk root (d.contents []) ∧
      ((d.inner []).filterMap (jsonFileAt? disk root)).mapM (relative project) = .ok files := by
    intro d files
    have h : jsonFilesBelow disk project ⟨root.anchor, root.parts ++ []⟩ d = .ok files ↔ _ := jsonFilesBelow_ok
    rwa [List.append_nil] at h
  have hperm : ∀ d : Dir, ((d.direct []).filterMap (jsonFileAt? disk root) ++ (d.inner []).filterMap (jsonFileAt? disk root)).Perm
      ((d.contents []).filterMap (jsonFileAt? disk root)) := fun d => by
    rw [← List.filterMap_append]
    exact (Dir.walk_perm d []).filterMap _
  unfold actionFiles
  simp only [bind_ok, enter_ok, hin, hbelow]
  constructor
  · rintro ⟨d, hd, direct, hdirect, below, ⟨henter, hinner⟩, h⟩
    cases h
    -- the sorted list does not tell in which order they were met
    have hall := mapM_ok.1 (mapM_append_ok.2 ⟨_, _, hdirect, hinner, rfl⟩)
    obtain ⟨relative, hrel, hsame⟩ := List.perm_comp_forall₂ (hperm d).symm hall
    exact ⟨d, relative, hd, henter, hrel.imp fun _ _ => relative_ok.1, Text.sort_congr hsame.symm⟩
  · rintro ⟨d, relative, hd, henter, hrel, rfl⟩
    obtain ⟨met, hmet, hsame⟩ := List.perm_comp_forall₂ (hperm d) (hrel.imp fun _ _ => relative_ok.2)
    obtain ⟨direct, below, hdirect, hinner, rfl⟩ := mapM_append_ok.1 (mapM_ok.2 hmet)
    exact ⟨d, hd, direct, hdirect, below, ⟨henter, hinner⟩, congrArg Except.ok (Text.sort_congr hsame)⟩

theorem jsonFileAt?_eq_some {x : List Text × Entry} {p : Path} :
    jsonFileAt? disk root x = some p ↔ p = ⟨root.anchor, root.parts ++ x.1⟩ ∧ listed disk p x.2 = true ∧
      Key.extension.isSuffixOf (p.name?.getD []) = true := by
  unfold jsonFileAt?
  simp only [Option.ite_none_right_eq_some, Bool.and_eq_true, Option.some.injEq]
  constructor
  · rintro ⟨⟨h1, h2⟩, rfl⟩
    exact ⟨rfl, h1, h2⟩
  · rintro ⟨rfl, h1, h2⟩
    exact ⟨⟨h1, h2⟩, rfl⟩

theorem not_folder_of_listed {path : Path} {e : Entry} (h : listed disk path e = true) (d : Dir) :
    e ≠ .folder d := by
  rintro rfl
  cases h

theorem normal_of_jsonFileAt? {p : Path} (hroot : root.Normal) {d : Dir} (hd : d.WellFormed) {x : List Text × Entry}
    (hmem : x ∈ d.contents []) (h : jsonFileAt? disk root x = some p) : p.Normal := by
  obtain ⟨parts, e⟩ := x
  obtain ⟨more, -, rfl, hfind⟩ := (Dir.mem_contents hd).1 hmem
  obtain ⟨rfl, -, -⟩ := jsonFileAt?_eq_some.1 h
  intro part hpart
  rcases List.mem_append.1 hpart with hpart | hpart
  · exact hroot part hpart
  · exact ((hd.find? hfind).1 part hpart).part

theorem nodup_actionFiles (hroot : disk.root.WellFormed) (hnormal : root.Normal) {files : List Text}
    (h : actionFiles disk project root = .ok files) : files.Nodup := by
  obtain ⟨d, relative, hd, -, hrel, rfl⟩ := actionFiles_ok.1 h
  obtain ⟨top, hresolve⟩ := Disk.list_ok.1 hd
  have hwf := Disk.wellFormed_of_resolve hroot hnormal hresolve
  have hspelled : ∀ p ∈ (d.contents []).filterMap (jsonFileAt? disk root), p.Normal := by
    intro p hp
    obtain ⟨x, hmem, hjson⟩ := List.mem_filterMap.1 hp
    exact normal_of_jsonFileAt? hnormal hwf hmem hjson
  rw [(Text.sort_perm _).nodup_iff]
  refine nodup_of_forall₂ hrel ?_ ?_
  · refine List.Pairwise.filterMap _ (fun x y hne p hp p' hp' he => hne ?_) (List.pairwise_map.1 (Dir.nodup_contents hwf []))
    obtain ⟨rfl, -, -⟩ := jsonFileAt?_eq_some.1 hp
    obtain ⟨rfl, -, -⟩ := jsonFileAt?_eq_some.1 hp'
    exact List.append_cancel_left (congrArg Path.parts he)
  · rintro p hp p' hp' t ⟨q, hq, rfl⟩ ⟨q', hq', he⟩
    obtain ⟨rfl, -⟩ := Path.relativeTo?_eq_some.1 hq
    obtain ⟨rfl, -⟩ := Path.relativeTo?_eq_some.1 hq'
    have hqn : q.Normal := fun part hpart => hspelled _ hp part (List.mem_append_right _ hpart)
    have hqn' : q'.Normal := fun part hpart => hspelled _ hp' part (List.mem_append_right _ hpart)
    rw [← Path.ofText_text hqn, he, Path.ofText_text hqn']

/-- The files of one folder are listed in strict order. -/
theorem actionFiles_increasing (hroot : disk.root.WellFormed) (hnormal : root.Normal) {files : List Text}
    (h : actionFiles disk project root = .ok files) : files.Pairwise (· < ·) := by
  have hnodup := nodup_actionFiles hroot hnormal h
  obtain ⟨d, relative, -, -, -, rfl⟩ := actionFiles_ok.1 h
  exact Text.sort_increasing ((Text.sort_perm relative).nodup_iff.1 hnodup)

/-- What is listed below an action folder and can be given relative to the project stands in the
project at these parts, unless it is a link by which the project itself is reached. -/
theorem stands_of_relative {place : List Text} {tree : Dir} (hp : disk.HasProject project place tree)
    {dir : Text} (hdots : (['.', '.'] : Text) ∉ Path.partsOf dir) {top parts : List Text} {d : Dir} {e : Entry}
    (hroot : disk.resolve .target (project.under dir).text = .ok (.found top (.folder d)))
    (hne : parts ≠ []) (hfind : d.find? parts = some e) (he : ∀ inside, e ≠ .folder inside) {q : Path}
    (hq : Path.relativeTo? project ⟨(project.under dir).anchor, (project.under dir).parts ++ parts⟩ = some q) :
    q.anchor = .here ∧ Descends q.parts ∧
      ((q.parts = [] ∧ ∃ t, e = .link t) ∨
        (q.parts ≠ [] ∧ top ++ parts = place ++ q.parts ∧ tree.find? q.parts = some e)) := by
  obtain ⟨hpath, hhere⟩ := Path.relativeTo?_eq_some.1 hq
  have hleads := ((Disk.resolve_text_ok (hp.normal.under dir)).1 hroot).2
  have hwf := (hp.wellFormed.find? (Disk.resolveParts_found hleads)).2 d rfl
  have hnames := Path.descends_of_names (hwf.find? hfind).1
  have hdir : Descends (Path.partsOf dir) := fun p hp' =>
    ⟨Path.isPart_of_mem_partsOf hp', fun h => hdots (h ▸ hp')⟩
  have hdesc : Descends q.parts := by
    -- what the path has beyond the project comes from the folder's name and the names below it
    have hall : Descends (Path.partsOf dir ++ parts) := Path.descends_append.2 ⟨hdir, hnames⟩
    have hparts := congrArg Path.parts hpath
    unfold Path.under Path.join at hparts
    split at hparts
    · simp only [List.append_assoc, List.append_cancel_left_eq] at hparts
      rw [← hparts]
      exact hall
    · simp only at hparts
      rw [show (Path.ofText dir).parts = Path.partsOf dir from rfl] at hparts
      rw [hparts] at hall
      exact (Path.descends_append.1 hall).2
  have hentry : disk.leads .entry ⟨project.anchor, project.parts ++ q.parts⟩ = .ok (.found (top ++ parts) e) :=
    hpath ▸ Disk.leads_names hp.wellFormed (by decide) hleads hne hfind (.inl rfl)
  refine ⟨hhere, hdesc, ?_⟩
  by_cases hqne : q.parts = []
  · refine .inl ⟨hqne, ?_⟩
    cases e with
    | link t => exact ⟨t, rfl⟩
    | folder inside => exact absurd rfl (he inside)
    | file b =>
      -- a file cannot stand where the folder of the project is
      have htarget := Disk.leads_names hp.wellFormed (show Disk.Aim.target ≠ .writing by decide) hleads hne hfind
        (.inr (by rintro t ⟨⟩))
      rw [hpath, hqne, List.append_nil, hp.leads_target] at htarget
      cases htarget
  · exact .inr ⟨hqne, (hp.leads_iff (by decide) hqne hdesc).1 hentry⟩

/-! ## Below all folders -/

/-- Where an action file is listed: below which folder, and as what. -/
theorem mem_actionPaths {dirs : List Text} {path : Text} (h : path ∈ actionPaths dirs disk project) :
    ∃ dir ∈ dirs, ∃ d parts e p, disk.list (project.under dir).text = .ok d ∧ (parts, e) ∈ d.contents [] ∧
      jsonFileAt? disk (project.under dir) (parts, e) = some p ∧ Relative project p path := by
  unfold actionPaths at h
  obtain ⟨root, hroot, hpath⟩ := List.mem_flatMap.1 h
  obtain ⟨dir, hdir, rfl⟩ := List.mem_map.1 (List.mem_filter.1 hroot).1
  unfold filesOf at hpath
  split at hpath
  · rename_i files hfiles
    obtain ⟨d, relative, hd, -, hrel, rfl⟩ := actionFiles_ok.1 hfiles
    obtain ⟨p, hp, hr⟩ := forall₂_mem_right hrel (Text.mem_sort.1 hpath)
    obtain ⟨⟨parts, e⟩, hmem, hjson⟩ := List.mem_filterMap.1 hp
    exact ⟨dir, hdir, d, parts, e, p, hd, hmem, hjson, hr⟩
  · cases hpath

/-- An action file is given by parts that only lead down, and lies below an action folder. -/
theorem relative_of_mem_actionPaths {place : List Text} {tree : Dir} (hp : disk.HasProject project place tree)
    {dirs : List Text} (hdots : ∀ dir ∈ dirs, (['.', '.'] : Text) ∉ Path.partsOf dir) {path : Text}
    (hpath : path ∈ actionPaths dirs disk project) :
    ∃ dir ∈ dirs, ∃ parts rel, path = (Path.mk .here rel).text ∧ Descends rel ∧
      (project.under dir).parts ++ parts = project.parts ++ rel ∧
      Key.extension.isSuffixOf ((project.parts ++ rel).getLast?.getD []) = true := by
  obtain ⟨dir, hdir, d, parts, e, p, hd, hmem, hjson, q, hq, rfl⟩ := mem_actionPaths hpath
  obtain ⟨top, hroot⟩ := Disk.list_ok.1 hd
  have hwf := Disk.wellFormed_of_resolve hp.wellFormed (hp.normal.under dir) hroot
  obtain ⟨more, hne, rfl, hfind⟩ := (Dir.mem_contents hwf).1 hmem
  obtain ⟨rfl, hlisted, hext⟩ := jsonFileAt?_eq_some.1 hjson
  obtain ⟨hhere, hdesc, -⟩ := stands_of_relative hp (hdots dir hdir) hroot hne hfind
    (not_folder_of_listed hlisted) hq
  have hparts : (project.under dir).parts ++ parts = project.parts ++ q.parts :=
    congrArg Path.parts (Path.relativeTo?_eq_some.1 hq).1
  refine ⟨dir, hdir, parts, q.parts, ?_, hdesc, hparts, hparts ▸ hext⟩
  obtain ⟨qanchor, qparts⟩ := q
  simp only at hhere
  rw [hhere]

/-- If the action folders are named relative to the project, the path of an action file begins with one. -/
theorem prefix_of_mem_actionPaths {place : List Text} {tree : Dir} (hp : disk.HasProject project place tree)
    {dirs : List Text} (hdots : ∀ dir ∈ dirs, (['.', '.'] : Text) ∉ Path.partsOf dir)
    (hhere : ∀ dir ∈ dirs, Path.anchorOf dir = .here) {path : Text}
    (hpath : path ∈ actionPaths dirs disk project) : ∃ dir ∈ dirs, Path.partsOf dir <+: Path.partsOf path := by
  obtain ⟨dir, hdir, parts, rel, rfl, hdesc, hparts, -⟩ := relative_of_mem_actionPaths hp hdots hpath
  refine ⟨dir, hdir, parts, ?_⟩
  have hunder : project.under dir = ⟨project.anchor, project.parts ++ Path.partsOf dir⟩ := if_pos (hhere dir hdir)
  rw [hunder, List.append_assoc, List.append_cancel_left_eq] at hparts
  rw [hparts, partsOf_text hdesc]

/-- An action file that leads to a file is a JSON file of the project, and leads to its place. -/
theorem leads_of_mem_actionPaths {place : List Text} {tree : Dir} (hp : disk.HasProject project place tree)
    {dirs : List Text} (hdots : ∀ dir ∈ dirs, (['.', '.'] : Text) ∉ Path.partsOf dir) {path : Text}
    (hpath : path ∈ actionPaths dirs disk project) {spot : List Text} {b : Bytes}
    (hr : disk.resolve .target (project.under path).text = .ok (.found spot (.file b))) :
    IsProjectFile tree path ∧ spot = place ++ Path.partsOf path ∧
      Key.extension.isSuffixOf ((Path.partsOf path).getLast?.getD []) = true := by
  obtain ⟨-, -, -, rel, rfl, hdesc, -, hext⟩ := relative_of_mem_actionPaths hp hdots hpath
  have hunder : project.under (Path.mk .here rel).text = ⟨project.anchor, project.parts ++ rel⟩ :=
    Path.under_text (hdesc.normal .here) rfl
  have hleads := ((Disk.resolve_text_ok (hp.normal.under _)).1 hr).2
  rw [hunder] at hleads
  have hne : rel ≠ [] := by
    rintro rfl
    rw [List.append_nil, hp.leads_target] at hleads
    cases hleads
  obtain ⟨hspot, hstands⟩ := (hp.leads_iff (by decide) hne hdesc).1 hleads
  rw [partsOf_text hdesc]
  rw [List.getLast?_append_of_ne_nil _ hne] at hext
  exact ⟨isProjectFile_text hne hdesc hstands, hspot, hext⟩

/-! ## Below folders of the project -/

/-- What lies below a folder that is named relative to the project can be given relative to it. -/
theorem relative_below {dir : Text} (hhere : Path.anchorOf dir = .here) (parts : List Text) :
    ∃ q, Path.relativeTo? project ⟨(project.under dir).anchor, (project.under dir).parts ++ parts⟩ = some q := by
  have hunder : project.under dir = ⟨project.anchor, project.parts ++ Path.partsOf dir⟩ := if_pos hhere
  rw [hunder, List.append_assoc]
  exact ⟨_, Path.relativeTo?_below.2 rfl⟩

/-- A folder that is named relative to the project can be searched for JSON files, if it and the folders inside it can be
listed. -/
theorem actionFiles_runs {dir : Text} (hhere : Path.anchorOf dir = .here) {d : Dir}
    (hd : disk.list (project.under dir).text = .ok d) (henter : CanEnter disk (project.under dir) (d.contents [])) :
    ∃ files, actionFiles disk project (project.under dir) = .ok files := by
  have hrelative : ∀ p ∈ (d.contents []).filterMap (jsonFileAt? disk (project.under dir)),
      Relative project p (((Path.relativeTo? project p).map Path.text).getD []) := by
    intro p hp
    obtain ⟨x, -, hx⟩ := List.mem_filterMap.1 hp
    obtain ⟨rfl, -, -⟩ := jsonFileAt?_eq_some.1 hx
    obtain ⟨q, hq⟩ := relative_below hhere x.1
    exact ⟨q, hq, by rw [hq]; rfl⟩
  have hall := List.forall₂_map_right_iff.2 (List.forall₂_same.2 hrelative)
  exact ⟨_, actionFiles_ok.2 ⟨d, _, hd, henter, hall, rfl⟩⟩

/-- Nothing below a folder of a project has a path that is too long. -/
def ShortBelow (project : Path) (tree : Dir) (dir : Text) : Prop :=
  ∀ more e, more ≠ [] → tree.find? (Path.partsOf dir ++ more) = some e →
    (Utf8.encode (Path.mk project.anchor (project.parts ++ (Path.partsOf dir ++ more))).text).length ≤ Disk.pathLimit

theorem canEnter_of_short {place : List Text} {tree : Dir} (h : disk.HasTree project place tree) {dir : Text}
    (hhere : Path.anchorOf dir = .here) {d : Dir} (hd : tree.find? (Path.partsOf dir) = some (.folder d))
    (hshort : ShortBelow project tree dir) : CanEnter disk (project.under dir) (d.contents []) := by
  have hunder : project.under dir = ⟨project.anchor, project.parts ++ Path.partsOf dir⟩ := if_pos hhere
  intro parts inside hmem
  obtain ⟨_, hne, rfl, hinside⟩ := (Dir.mem_contents ((h.tree_wellFormed.find? hd).2 d rfl)).1 hmem
  have hfind : tree.find? (Path.partsOf dir ++ parts) = some (.folder inside) := (Dir.find?_inside hd parts).trans hinside
  rw [hunder, List.append_assoc]
  exact ⟨inside, h.list_of_short hfind (hshort parts _ hne hfind)⟩

/-- Below a folder of a project without links, the JSON files are listed that lie below it. -/
theorem mem_actionFiles_iff {place : List Text} {tree : Dir} (hp : disk.HasProject project place tree) {dir : Text}
    (hhere : Path.anchorOf dir = .here) (hdesc : Descends (Path.partsOf dir)) {files : List Text}
    (h : actionFiles disk project (project.under dir) = .ok files) {path : Text} :
    path ∈ files ↔ IsJsonFile tree path ∧ ∃ more, more ≠ [] ∧ Path.partsOf path = Path.partsOf dir ++ more := by
  have hunder : project.under dir = ⟨project.anchor, project.parts ++ Path.partsOf dir⟩ := if_pos hhere
  obtain ⟨d, relative, hd, -, hrel, rfl⟩ := actionFiles_ok.1 h
  obtain ⟨top, hroot⟩ := Disk.list_ok.1 hd
  have hleads := ((Disk.resolve_text_ok (hp.normal.under dir)).1 hroot).2
  rw [hunder] at hleads hrel
  obtain ⟨rfl, hstands⟩ := (hp.leads_folder_iff hdesc).1 hleads
  have hwf : d.WellFormed := (hp.tree_wellFormed.find? hstands).2 d rfl
  rw [Text.mem_sort]
  constructor
  · intro hpath
    obtain ⟨p, hmem, q, hq, rfl⟩ := forall₂_mem_right hrel hpath
    obtain ⟨⟨more, e⟩, hmem, hjson⟩ := List.mem_filterMap.1 hmem
    obtain ⟨more, hne, rfl, he⟩ := (Dir.mem_contents hwf).1 hmem
    obtain ⟨rfl, hlisted, hext⟩ := jsonFileAt?_eq_some.1 hjson
    have hstands' : tree.find? (Path.partsOf dir ++ more) = some e := (Dir.find?_inside hstands more).trans he
    rw [List.append_assoc] at hq
    obtain rfl := Path.relativeTo?_below.1 hq
    have hall : Descends (Path.partsOf dir ++ more) :=
      Path.descends_append.2 ⟨hdesc, Path.descends_of_names (hwf.find? he).1⟩
    have hnil : Path.partsOf dir ++ more ≠ [] := by simp [hne]
    cases e with
    | folder inside => exact absurd rfl (not_folder_of_listed hlisted inside)
    | link t => exact absurd rfl ((hp.linkFree.find? hstands').1 t)
    | file b =>
      refine ⟨⟨isProjectFile_text hnil hall hstands', ?_⟩, more, hne, partsOf_text hall⟩
      rw [partsOf_text hall]
      simpa only [Path.name?, List.nil_append, List.append_assoc, List.getLast?_append_of_ne_nil _ hnil] using hext
  · rintro ⟨⟨hfile, hext⟩, more, hne, hparts⟩
    obtain ⟨b, hb⟩ := hfile.stands
    rw [hparts] at hb hext
    have he : d.find? more = some (.file b) := (Dir.find?_inside hstands more).symm.trans hb
    have hnil : Path.partsOf dir ++ more ≠ [] := by simp [hne]
    have hjson : jsonFileAt? disk ⟨project.anchor, project.parts ++ Path.partsOf dir⟩ (more, .file b) =
        some ⟨project.anchor, project.parts ++ (Path.partsOf dir ++ more)⟩ := by
      refine jsonFileAt?_eq_some.2 ⟨by rw [List.append_assoc], rfl, ?_⟩
      simpa only [Path.name?, List.getLast?_append_of_ne_nil _ hnil] using hext
    obtain ⟨t, ht, q, hq, rfl⟩ := forall₂_mem_left hrel
      (List.mem_filterMap.2 ⟨(more, .file b), (Dir.mem_contents hwf).2 ⟨more, hne, rfl, he⟩, hjson⟩)
    obtain rfl := Path.relativeTo?_below.1 hq
    rwa [hfile.text_eq, hparts]

/-- Below folders of a project, only JSON files below them are listed. -/
theorem isJsonFile_of_mem_actionPaths {place : List Text} {tree : Dir} (hp : disk.HasProject project place tree)
    {dirs : List Text} (hdown : ∀ dir ∈ dirs, Path.anchorOf dir = .here ∧ Descends (Path.partsOf dir)) {path : Text}
    (h : path ∈ actionPaths dirs disk project) : IsJsonFile tree path ∧
      ∃ dir ∈ dirs, ∃ more, more ≠ [] ∧ Path.partsOf path = Path.partsOf dir ++ more := by
  unfold actionPaths at h
  obtain ⟨root, hroot, hpath⟩ := List.mem_flatMap.1 h
  obtain ⟨dir, hdir, rfl⟩ := List.mem_map.1 (List.mem_filter.1 hroot).1
  obtain ⟨hhere, hdesc⟩ := hdown dir hdir
  unfold filesOf at hpath
  split at hpath
  · rename_i files hfiles
    obtain ⟨hjson, hbelow⟩ := (mem_actionFiles_iff hp hhere hdesc hfiles).1 hpath
    exact ⟨hjson, dir, hdir, hbelow⟩
  · cases hpath

/-- If the action folders are folders of a project without links, the files that a scan asks for are the JSON
files below them. -/
theorem mem_actionPaths_iff {place : List Text} {tree : Dir} (hp : disk.HasProject project place tree)
    {config : ScanConfig} {dirs : List Text} (hd : Discoverable config disk project dirs)
    (hdown : ∀ dir ∈ dirs, Path.anchorOf dir = .here ∧ Descends (Path.partsOf dir)) {path : Text} :
    path ∈ actionPaths dirs disk project ↔ IsJsonFile tree path ∧
      ∃ dir ∈ dirs, ∃ more, more ≠ [] ∧ Path.partsOf path = Path.partsOf dir ++ more := by
  constructor
  · exact isJsonFile_of_mem_actionPaths hp hdown
  · rintro ⟨hjson, dir, hdir, hbelow⟩
    obtain ⟨hhere, hdesc⟩ := hdown dir hdir
    have hfolder : disk.leadsToFolder (project.under dir).text = true := by
      obtain ⟨more, hne, hparts⟩ := hbelow
      obtain ⟨b, hb⟩ := hjson.1.stands
      rw [hparts] at hb
      obtain ⟨d, hstands, -⟩ := Dir.find?_folder_of_append hne hb
      exact (hp.leadsToFolder_iff hhere hdesc (hd.asks dir hdir)).2 ⟨d, hstands⟩
    obtain ⟨files, hfiles⟩ := hd.lists dir hdir hfolder
    refine List.mem_flatMap.2 ⟨_, List.mem_filter.2 ⟨List.mem_map_of_mem hdir, hfolder⟩, ?_⟩
    unfold filesOf
    rw [hfiles]
    exact (mem_actionFiles_iff hp hhere hdesc hfiles).2 ⟨hjson, hbelow⟩

end Scan

end ActionSweep
