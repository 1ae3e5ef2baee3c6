/-
The files of a project that git does not track. What is reported are the files whose path from the top of the work tree
on is no line of git's list. For paths of printable ASCII without quotes and backslashes this is membership in the list
of staged files; any other path is compared with a line that does not spell it.
-/
import ActionSweep.Git.WorkTree
import ActionSweep.Proofs.Files.Plain
import ActionSweep.Proofs.Git.Names
import ActionSweep.Proofs.Sample

namespace ActionSweep

open ActionSweep.Path (goes goes_append goes_cons goes_down)

/-! ## Paths with every link replaced, where there is none -/

/-- Where a path without two dots at its beginning goes has none. -/
theorem Path.noDots_goes : ∀ {parts here : List Text}, (['.', '.'] : Text) ∉ here → (['.', '.'] : Text) ∉ goes here parts
  | [], _, h => h
  | part :: parts, here, h => by
    rw [goes_cons]
    refine noDots_goes ?_
    split
    · exact fun hmem => h (List.mem_of_mem_dropLast hmem)
    · rename_i hpart
      simp only [List.mem_append, List.mem_singleton, not_or]
      exact ⟨h, fun he => hpart he.symm⟩

namespace Disk

variable {root : Dir} {disk : Disk} {here parts : List Text}

/-- No link stands at the places that the parts of a path go through. -/
def NoLinkOn (root : Dir) (here parts : List Text) : Prop :=
  ∀ front, front <+: parts → ∀ t, root.find? (goes here front) ≠ some (.link t)

theorem NoLinkOn.tail {part : Text} (h : NoLinkOn root here (part :: parts)) : NoLinkOn root (goes here [part]) parts :=
  fun front hfront => h (part :: front) (List.cons_prefix_cons.2 ⟨rfl, hfront⟩)

theorem NoLinkOn.append {more : List Text} (h : NoLinkOn root here parts) (hmore : NoLinkOn root (goes here parts) more) :
    NoLinkOn root here (parts ++ more) := by
  intro front hfront
  rcases List.prefix_or_prefix_of_prefix hfront (List.prefix_append parts more) with hfront' | ⟨rest, rfl⟩
  · exact h front hfront'
  · rw [goes_append]
    exact hmore rest ((List.prefix_append_right_inj parts).1 hfront)

/-- On the way down to a folder there is no link. -/
theorem noLinkOn_folder (hup : (['.', '.'] : Text) ∉ here) (h : root.FolderAt here) : NoLinkOn root [] here := by
  intro front hfront t hlink
  rw [goes_down fun hmem => hup (hfront.subset hmem), List.nil_append] at hlink
  obtain ⟨d, hd⟩ := h.above hfront
  cases hlink.symm.trans hd

/-- Without links every step goes on by a part, as long as steps are left. -/
theorem realParts_eq (entered : List (List Text)) : ∀ (n : Nat) {here parts : List Text}, NoLinkOn root here parts →
    realParts root n entered here parts =
      if parts.length < n then (goes here parts, true) else (goes here (parts.take n) ++ parts.drop n, false)
  | 0, here, parts, _ => by rw [realParts]; rfl
  | n + 1, here, [], _ => by rw [realParts]; rfl
  | n + 1, here, part :: parts, h => by
    have ih := realParts_eq entered n h.tail
    have hgo : ∀ more, goes (goes here [part]) more = goes here (part :: more) := fun more => (goes_append here [part] more).symm
    have hstep : realParts root (n + 1) entered here (part :: parts) = realParts root n entered (goes here [part]) parts := by
      rw [realParts, goes_cons, Path.goes_nil]
      by_cases hup : part = ['.', '.']
      · rw [if_pos hup, if_pos hup]
      · rw [if_neg hup, if_neg hup]
        have hlink := h [part] ⟨parts, rfl⟩
        rw [goes_cons, if_neg hup, Path.goes_nil] at hlink
        split
        · rename_i t ht
          exact absurd ht (hlink t)
        · rfl
    rw [hstep, ih, hgo, hgo, List.length_cons, List.take_succ_cons, List.drop_succ_cons]
    simp only [Nat.add_lt_add_iff_right]

theorem leads_of_find? (hroot : disk.root.WellFormed) {place : List Text} {e : Entry} (he : disk.root.find? place = some e)
    (hlink : ∀ t, e ≠ .link t) : disk.leads .target ⟨.root, place⟩ = .ok (.found place e) := by
  obtain ⟨jump, hjump⟩ := resolveParts_walk disk.root .target linkLimit
  unfold leads
  rw [hjump]
  by_cases hplace : place = []
  · subst hplace
    show walk disk.root .target jump [] [] = _
    rw [walk.eq_1, he]
  · exact walk_names (by decide) (.inr hlink) rfl (hroot.find? he).1 hplace he

theorem normal_of_find? (hroot : disk.root.WellFormed) {place : List Text} {e : Entry} (he : disk.root.find? place = some e)
    (anchor : Anchor) : (Path.mk anchor place).Normal := fun n hn => ((hroot.find? he).1 n hn).part

/-- A path that meets no link is the one to the place that it names. -/
theorem realPath_eq (hroot : disk.root.WellFormed) {p : Path} (habsolute : p.isAbsolute = true)
    (hlinks : NoLinkOn disk.root [] p.parts) {e : Entry} (he : disk.root.find? (disk.spot p) = some e) :
    disk.realPath p = .ok ⟨.root, disk.spot p⟩ := by
  have hspot : disk.spot p = goes [] p.parts := by rw [spot, Disk.start, if_pos habsolute]
  unfold realPath
  rw [if_pos habsolute, realParts_eq [] realSteps hlinks]
  by_cases hsteps : p.parts.length < realSteps
  · rw [if_pos hsteps, hspot]
  rw [if_neg hsteps]
  -- the rest of a very long path is worked out on its text
  have hplace : withoutDots (goes [] (p.parts.take realSteps) ++ p.parts.drop realSteps) = disk.spot p := by
    show goes [] (goes [] (p.parts.take realSteps) ++ p.parts.drop realSteps) = _
    rw [goes_append, goes_down (Path.noDots_goes List.not_mem_nil), List.nil_append, ← goes_append, List.take_append_drop, hspot]
  have hfound : disk.leads .target ⟨.root, disk.spot p⟩ = .ok (.found (disk.spot p) e) := by
    refine leads_of_find? hroot he fun t ht => ?_
    subst ht
    exact hlinks p.parts (List.prefix_refl _) t (hspot ▸ he)
  dsimp only
  rw [hplace, resolve_text (normal_of_find? hroot he .root), hfound]
  split
  · rename_i f hf
    split at hf
    · cases hf
    split at hf
    · cases hf
      rfl
    · cases hf
  · rfl

end Disk

namespace Git

open Disk (NoLinkOn)

variable {disk : Disk} {project : Path} {here : List Text} {tree : WorkTree} {names : List Bytes}

/-! ## The work tree -/

theorem workTreeAt?_top {folder : Path} (h : workTreeAt? disk folder = .ok (some tree)) :
    tree.top = folder ∨ tree.top = folder.parent := by
  unfold workTreeAt? at h
  split at h
  · cases h
    exact .inr rfl
  · obtain ⟨pointed, -, h⟩ := Outcome.bind_ok.1 h
    obtain ⟨repository, -, rfl⟩ := Option.map_eq_some_iff.1 (Except.ok.inj h)
    exact .inl rfl

theorem firstWorkTree?_top : ∀ {folders : List Path}, firstWorkTree? disk folders = .ok (some tree) →
    ∃ folder ∈ folders, tree.top = folder ∨ tree.top = folder.parent
  | [], h => by cases h
  | folder :: rest, h => by
    obtain ⟨found, hfound, h⟩ := Outcome.bind_ok.1 h
    cases found with
    | some found =>
      cases h
      exact ⟨folder, List.mem_cons_self .., workTreeAt?_top hfound⟩
    | none =>
      obtain ⟨folder', hmem, htop⟩ := firstWorkTree?_top h
      exact ⟨folder', List.mem_cons_of_mem _ hmem, htop⟩

/-- The top of the work tree at a place is that place or stands above it. -/
theorem workTree?_top {place : Path} (h : workTree? disk place = .ok (some tree)) :
    tree.top.anchor = place.anchor ∧ tree.top.parts <+: place.parts := by
  obtain ⟨folder, hfolder, htop⟩ := firstWorkTree?_top h
  obtain ⟨n, -, rfl⟩ := List.mem_map.1 hfolder
  rcases htop with htop | htop <;> rw [htop]
  · exact ⟨rfl, List.take_prefix ..⟩
  · exact ⟨rfl, (List.dropLast_prefix _).trans (List.take_prefix ..)⟩

/-- What git finds in the top folder of a work tree: a repository with settings that it can read, which put the top where
it is and leave names to be quoted, and the names of the staged files. -/
structure Lists (disk : Disk) (top : Path) (opened : Opened) (settings user : List ConfigEntry) (names : List Bytes) : Prop where
  opens : open? disk top = some opened
  reads : settings? disk (opened.repository.under "config") = some settings
  known : Config.isKnownFormat settings = true
  readsUser : userSettings? disk = some user
  atTop : opened.place? disk top settings = some []
  quotes : Config.isOn (user ++ settings) "core.quotepath" true = true
  staged : staged? disk opened.repository = some names

theorem Lists.listing {top : Path} {opened : Opened} {settings user : List ConfigEntry}
    (h : Lists disk top opened settings user names) : listing? disk top = some (names.flatMap (nameLines true)) := by
  have hbelow : names.filterMap (below? []) = names := by
    rw [show below? [] = (some : Bytes → Option Bytes) from rfl, List.filterMap_some]
  unfold listing?
  simp only [h.opens, h.reads, Option.filter_some, h.known, if_true, h.readsUser, h.atTop, h.quotes, h.staged, hbelow,
    Option.bind_eq_bind, Option.bind_some, Option.pure_def]

/-- A project in a folder of a work tree. Its path without links is short enough to be asked about, and no variables stand
in it. -/
structure InWorkTree (disk : Disk) (project : Path) (here : List Text) (tree : WorkTree) (names : List Bytes) : Prop where
  wellFormed : disk.root.WellFormed
  real : disk.realPath project = .ok ⟨.root, here⟩
  stands : disk.root.FolderAt here
  short : (Utf8.encode (Path.mk .root here).text).length ≤ Disk.pathLimit
  literal : disk.expandVariables (Path.mk .root here).text = (Path.mk .root here).text
  found : workTree? disk ⟨.root, here⟩ = .ok (some tree)
  notBare : isBare disk tree.repository = false
  lists : ∃ opened settings user, Lists disk tree.top opened settings user names

namespace InWorkTree

theorem up_not_mem (h : InWorkTree disk project here tree names) : (['.', '.'] : Text) ∉ here := by
  obtain ⟨d, hd⟩ := h.stands
  exact fun hmem => ((h.wellFormed.find? hd).1 _ hmem).notUp rfl

theorem normal (h : InWorkTree disk project here tree names) : (Path.mk .root here).Normal := by
  obtain ⟨d, hd⟩ := h.stands
  exact Disk.normal_of_find? h.wellFormed hd .root

theorem isThere (h : InWorkTree disk project here tree names) : disk.isThere (Path.mk .root here).text = true := by
  obtain ⟨d, hd⟩ := h.stands
  have hzero : '\x00' ∉ (Path.mk .root here).text := Path.zero_not_mem_text fun n hn => ((h.wellFormed.find? hd).1 n hn).noZero
  have hfound := (Disk.resolve_text_ok h.normal).2 ⟨⟨hzero, h.short⟩, Disk.leads_of_find? h.wellFormed hd (by simp)⟩
  unfold Disk.isThere Disk.present Disk.test
  rw [hfound]

/-- The search for the work tree begins at the project itself. -/
theorem absolute (h : InWorkTree disk project here tree names) :
    Path.ofText (disk.absolutePath (Path.mk .root here).text) = ⟨.root, here⟩ := by
  have hparts : Path.partsOf (Path.mk .root here).text = here := congrArg Path.parts (Path.ofText_text h.normal)
  have hslash : (['/'] : Text).isPrefixOf (Path.mk .root here).text = true := by
    rw [Disk.prefix_slash_text h.normal]
    rfl
  have hdots : Disk.withoutDots here = here := (goes_down h.up_not_mem []).trans (List.nil_append here)
  unfold Disk.absolutePath
  rw [if_pos hslash, hparts]
  show Path.ofText (Path.mk .root (Disk.withoutDots here)).text = _
  rw [hdots, Path.ofText_text h.normal]

theorem top_anchor (h : InWorkTree disk project here tree names) : tree.top.anchor = .root := (workTree?_top h.found).1

/-- No link leads to the top of the work tree. -/
theorem realPath_top (h : InWorkTree disk project here tree names) : disk.realPath tree.top = .ok tree.top := by
  have habove : tree.top.parts <+: here := (workTree?_top h.found).2
  obtain ⟨parts, htop⟩ : ∃ parts, tree.top = ⟨.root, parts⟩ := ⟨tree.top.parts, by rw [← h.top_anchor]⟩
  rw [htop] at habove ⊢
  have hup : (['.', '.'] : Text) ∉ parts := fun hmem => h.up_not_mem (habove.subset hmem)
  have hfolder : disk.root.FolderAt parts := h.stands.above habove
  have hspot : disk.spot ⟨.root, parts⟩ = parts := by
    show goes [] parts = parts
    rw [goes_down hup, List.nil_append]
  have hlinks : NoLinkOn disk.root [] parts := Disk.noLinkOn_folder hup hfolder
  obtain ⟨d, hd⟩ := hfolder
  have hreal := Disk.realPath_eq h.wellFormed (p := ⟨.root, parts⟩) rfl hlinks (hspot.symm ▸ hd)
  rwa [hspot] at hreal

end InWorkTree

/-! ## Files -/

/-- A path from a project to a file of its work tree over which no link stands. -/
structure TreeFile (disk : Disk) (here : List Text) (top : Path) (file : Text) : Prop where
  relative : Path.anchorOf file = .here
  noZero : '\x00' ∉ file
  noLink : NoLinkOn disk.root here (Path.partsOf file)
  stands : ∃ b, disk.root.find? (goes here (Path.partsOf file)) = some (.file b)
  inside : top.parts <+: goes here (Path.partsOf file)

/-- The path from the top of the work tree to a file of a project at a place. -/
def treePath (here : List Text) (top : Path) (file : Text) : Text :=
  (Path.mk .here ((goes here (Path.partsOf file)).drop top.parts.length)).text

theorem InWorkTree.placeIn (h : InWorkTree disk project here tree names) {file : Text} (hfile : TreeFile disk here tree.top file) :
    placeIn disk ⟨.root, here⟩ tree.top file = .ok (treePath here tree.top file) := by
  have hunder : (Path.mk .root here).under file = ⟨.root, here ++ Path.partsOf file⟩ := Path.under_relative hfile.relative _
  have hgo : goes [] here = here := by rw [goes_down h.up_not_mem, List.nil_append]
  have hspot : disk.spot ⟨.root, here ++ Path.partsOf file⟩ = goes here (Path.partsOf file) := by
    show goes [] (here ++ Path.partsOf file) = _
    rw [goes_append, hgo]
  have hlinks : NoLinkOn disk.root [] (here ++ Path.partsOf file) :=
    (Disk.noLinkOn_folder h.up_not_mem h.stands).append (hgo.symm ▸ hfile.noLink)
  obtain ⟨b, hb⟩ := hfile.stands
  have hreal := Disk.realPath_eq h.wellFormed (p := ⟨.root, here ++ Path.partsOf file⟩) rfl hlinks (hspot.symm ▸ hb)
  obtain ⟨rest, hrest⟩ := hfile.inside
  have hrelative : Path.relativeTo? tree.top ⟨.root, goes here (Path.partsOf file)⟩ = some ⟨.here, rest⟩ :=
    Path.relativeTo?_eq_some.2 ⟨by rw [h.top_anchor, hrest], rfl⟩
  have hzero : file.contains '\x00' = false := by simpa using hfile.noZero
  unfold Git.placeIn
  simp only [hzero, hunder, hreal, hspot, hrelative, bind, Except.bind, Bool.false_eq_true, if_false]
  rw [treePath, ← hrest, List.drop_left]
  rfl

/-- What is reported are the files whose path is no line of git's list. -/
theorem untracked_eq (h : InWorkTree disk project here tree names) {files : List Text}
    (hfiles : ∀ file ∈ files, TreeFile disk here tree.top file) :
    untracked disk project files = .ok (some (files.filter fun file => !isLine names (treePath here tree.top file))) := by
  obtain ⟨opened, settings, user, hlists⟩ := h.lists
  have hplaces : files.mapM (placeIn disk ⟨.root, here⟩ tree.top) = .ok (files.map (treePath here tree.top)) :=
    Outcome.mapM_ok.2 (List.forall₂_map_right_iff.2 (List.forall₂_same.2 fun file hfile => h.placeIn (hfiles file hfile)))
  have hpairs : files.zip (files.map (treePath here tree.top)) = files.map fun file => (file, treePath here tree.top file) := by
    conv_lhs => rw [← List.map_id files, List.map_map]
    exact List.zip_map'
  unfold untracked
  simp only [h.real, bind, Except.bind, h.literal, h.isThere, h.absolute, h.found, h.notBare, h.realPath_top, hlists.listing, hplaces,
    hpairs, contains_lines]
  show Except.ok (some (((files.map fun file => (file, treePath here tree.top file)).filter fun f => !isLine names f.2).map
    (·.1))) = _
  rw [List.filter_map, List.map_map]
  exact congrArg (fun reported => Except.ok (some reported)) (List.map_id _)

/-- The files reported, in order, are those whose path is no line of git's list. If git quotes none of their paths, these
are exactly the files that are not staged; and a file that is not staged is always among them if its path does not begin
with a quote. -/
theorem untracked_exact (h : InWorkTree disk project here tree names) {files : List Text}
    (hfiles : ∀ file ∈ files, TreeFile disk here tree.top file) :
    ∃ reported, untracked disk project files = .ok (some reported) ∧
      reported = (files.filter fun file => !isLine names (treePath here tree.top file)) ∧
      ((∀ file ∈ files, isPlain (Utf8.encode (treePath here tree.top file)) = true) →
        reported = files.filter fun file => Utf8.encode (treePath here tree.top file) ∉ names) ∧
      ∀ file ∈ files, Utf8.encode (treePath here tree.top file) ∉ names → (treePath here tree.top file).head? ≠ some '"' →
        file ∈ reported := by
  refine ⟨_, untracked_eq h hfiles, rfl, fun hplain => List.filter_congr fun file hfile => ?_, fun file hfile hname hquote => ?_⟩
  · rw [isLine, if_pos (hplain file hfile), List.contains_eq_mem, decide_not]
  · refine List.mem_filter.2 ⟨hfile, ?_⟩
    rw [Bool.not_eq_true', ← Bool.not_eq_true]
    exact fun hline => hquote (quote_of_isLine hline hname)

end Git

namespace Sample

/-! ## A project in a folder of a work tree -/

/-- The names of the staged files, two of three. -/
def stagedNames : List Bytes := [Utf8.encode "app/api/a.json", Utf8.encode "app/api/é.json"]

def repository : Dir :=
  file "HEAD" "ref: refs/heads/master" (.file "index" (Git.writeStaged stagedNames)
    (.folder "objects" .empty (.folder "refs" .empty .empty)))

def stagedDisk : Disk :=
  ⟨.folder "p" (.folder ".git" repository (.folder "app" (.folder "api"
    (file "a.json" "" (file "b.json" "" (file "é.json" "" .empty))) .empty) .empty)) .empty, [], "/"⟩

def stagedProject : Path := ⟨.root, ["p", "app"]⟩

def workTree : Git.WorkTree := ⟨project, ⟨.root, ["p", ".git"]⟩⟩

theorem stagedDisk_inWorkTree : Git.InWorkTree stagedDisk stagedProject ["p", "app"] workTree stagedNames where
  wellFormed := by decide +kernel
  real := by decide +kernel
  stands := ⟨_, rfl⟩
  short := by decide
  literal := by decide +kernel
  found := by decide +kernel
  notBare := by decide +kernel
  lists := ⟨⟨⟨.root, ["p", ".git"]⟩, []⟩, [], [], by decide +kernel, by decide +kernel, by decide, by decide +kernel,
    by decide +kernel, by decide, by decide +kernel⟩

theorem stagedDisk_file {name : Text} (hname : name ∈ (["a.json", "b.json", "é.json"] : List Text)) :
    Git.TreeFile stagedDisk ["p", "app"] project ("api/" ++ name) := by
  have hless : stagedDisk.root.LinkFree := by decide
  simp only [List.mem_cons, List.not_mem_nil, or_false] at hname
  rcases hname with rfl | rfl | rfl <;>
    exact ⟨by decide, by decide, fun front _ t => hless.unlinked _ t, ⟨_, rfl⟩, by decide⟩

end Sample

namespace Git

/-- In the sample project the file that is not staged is reported. -/
theorem sample_untracked_exact :
    untracked Sample.stagedDisk Sample.stagedProject ["api/a.json", "api/b.json"] = .ok (some ["api/b.json"]) := by
  have hfiles : ∀ file ∈ (["api/a.json", "api/b.json"] : List Text),
      TreeFile Sample.stagedDisk ["p", "app"] Sample.workTree.top file := by
    intro file hfile
    simp only [List.mem_cons, List.not_mem_nil, or_false] at hfile
    rcases hfile with rfl | rfl
    · exact Sample.stagedDisk_file (by decide)
    · exact Sample.stagedDisk_file (by decide)
  obtain ⟨reported, hreported, -, hplain, -⟩ := untracked_exact Sample.stagedDisk_inWorkTree hfiles
  rw [hreported, hplain (by decide +kernel)]
  decide +kernel

/-- A staged file is reported if its name goes beyond ASCII. -/
theorem quoted_name_untracked :
    InWorkTree Sample.stagedDisk Sample.stagedProject ["p", "app"] Sample.workTree Sample.stagedNames ∧
      TreeFile Sample.stagedDisk ["p", "app"] Sample.workTree.top "api/é.json" ∧
      Utf8.encode (treePath ["p", "app"] Sample.workTree.top "api/é.json") ∈ Sample.stagedNames ∧
      untracked Sample.stagedDisk Sample.stagedProject ["api/é.json"] = .ok (some ["api/é.json"]) :=
  ⟨Sample.stagedDisk_inWorkTree, Sample.stagedDisk_file (by decide), by decide +kernel, by decide +kernel⟩

end Git

end ActionSweep
