/-
Deleting what was found. Deeper folders come first, so when the turn of a folder comes all that was in it is gone, the
folder itself is still there, and its path still leads to it. All folders that were found are deleted that way, nothing
else is, and there is nothing left to be found.
-/
import ActionSweep.Proofs.Folders.Search

namespace ActionSweep

namespace Dir

variable {tree : Dir} {rel more : List Text}

/-- The folders in such a folder are such folders themselves. -/
theorem OnlyFoldersAt.below (h : tree.OnlyFoldersAt rel) (hmore : tree.FolderAt (rel ++ more)) :
    tree.OnlyFoldersAt (rel ++ more) := by
  refine ⟨hmore, fun names e he => h.2 (more ++ names) e ?_⟩
  rwa [List.append_assoc] at he

end Dir

namespace EmptyFolders

open Disk (Clears)

variable {disk moment disk' : Disk} {project : Path} {place : List Text} {tree tree' : Dir} {roots : List Text}
  {found : List EmptyFolder} {done todo rels : List (List Text)} {rel more : List Text}

/-! ## One folder after the other -/

/-- Folders of a project in which there are only folders, all of which are among them, in an order in which they can be
removed. -/
structure Removable (project : Path) (tree : Dir) (rels : List (List Text)) : Prop where
  nonempty : ∀ rel ∈ rels, rel ≠ []
  only : ∀ rel ∈ rels, tree.OnlyFoldersAt rel
  closed : ∀ rel ∈ rels, ∀ n, tree.FolderAt (rel ++ [n]) → rel ++ [n] ∈ rels
  short : ∀ rel ∈ rels, (Utf8.encode (Path.mk project.anchor (project.parts ++ rel)).text).length ≤ Disk.pathLimit
  nodup : rels.Nodup
  deepest : rels.Pairwise fun r s => s.length ≤ r.length

/-- A folder of which the path leads to an empty folder itself is deleted. -/
theorem deleteOne_empty {path : Path} (htarget : disk.resolve .target path.text = .ok (.found place (.folder .empty)))
    (hremove : FileWork.change (·.removeFolder path.text) disk = .ok () disk') : deleteOne path disk = .ok .deleted disk' := by
  have hpresent : disk.present path.text = .ok true := Disk.present_ok.2 ⟨_, _, htarget⟩
  have hlist : disk.list path.text = .ok .empty := Disk.list_ok.2 ⟨_, htarget⟩
  have hlook : looksEmpty disk path = .ok true := by
    unfold looksEmpty
    rw [hlist]
    rfl
  have htree : removeTree path disk = .ok () disk' := by
    simp only [removeTree, removeBelow, bind, EStateM.bind, FileWork.ask, hlist, pure, EStateM.pure, hremove]
  rw [deleteOne_eq, hpresent]
  dsimp only
  rw [hlook]
  dsimp only
  rw [htree]

section Steps

variable (h : disk.HasTree project place tree) (hrels : Removable project tree (done ++ rel :: todo))
  (hclears : Clears (done.map (place ++ ·)) disk moment)
include h hrels hclears

/-- When its turn comes, a folder is empty. -/
theorem Removable.emptied : moment.root.find? (place ++ rel) = some (.folder .empty) := by
  have hmem : rel ∈ done ++ rel :: todo := by simp
  obtain ⟨-, hdeepest, hdone⟩ := List.pairwise_append.1 hrels.deepest
  -- the folder is there: no folder above it has had its turn
  obtain ⟨inside, hinside⟩ : moment.root.FolderAt (place ++ rel) := by
    obtain ⟨d, hd⟩ := (hrels.only rel hmem).1
    refine (hclears.cleared.folderAt ⟨d, (h.find?_below rel).trans hd⟩).resolve_right ?_
    rintro ⟨q, hq, hprefix⟩
    obtain ⟨r, hr, rfl⟩ := List.mem_map.1 hq
    rw [List.prefix_append_right_inj] at hprefix
    obtain rfl := hprefix.eq_of_length_le (hdone r hr rel (List.mem_cons_self ..))
    exact (List.nodup_append.1 hrels.nodup).2.2 r hr r (List.mem_cons_self ..) rfl
  -- and what was in it has had its turn
  have hnone : ∀ n, inside.get? n = none := by
    intro n
    rw [← Dir.find?_concat _ n hinside]
    cases hn : moment.root.find? (place ++ rel ++ [n]) with
    | none => rfl
    | some e =>
      obtain ⟨⟨f, hf, -⟩, hout⟩ := hclears.cleared.stood hn
      rw [List.append_assoc, h.find?_below] at hf
      obtain ⟨d, rfl⟩ := (hrels.only rel hmem).2 [n] f hf
      have hlength : (rel ++ [n]).length = rel.length + 1 := List.length_append
      rcases List.mem_append.1 (hrels.closed rel hmem n ⟨d, hf⟩) with hin | hin
      · refine absurd (List.prefix_refl _) (hout (place ++ rel ++ [n]) ?_)
        rw [List.append_assoc]
        exact List.mem_map_of_mem hin
      · rcases List.mem_cons.1 hin with heq | hin
        · rw [heq] at hlength
          omega
        · have hle := (List.pairwise_cons.1 hdeepest).1 _ hin
          omega
  rw [hinside, Dir.eq_empty_of_get? hnone]

/-- When its turn comes, a folder is deleted. -/
theorem Removable.deleted (houtside : disk.LeadsFromOutside project place) :
    ∃ moment', deleteOne ⟨project.anchor, project.parts ++ rel⟩ moment = .ok .deleted moment' ∧
      Clears ((done ++ [rel]).map (place ++ ·)) disk moment' := by
  have hmem : rel ∈ done ++ rel :: todo := by simp
  have hempty := hrels.emptied h hclears
  have hshort := hrels.short rel hmem
  obtain ⟨front, n, rfl⟩ := List.eq_nil_or_concat' rel |>.resolve_left (hrels.nonempty rel hmem)
  have hinside : ClearsInside disk place moment := by
    refine ⟨_, hclears, fun q hq => ?_⟩
    obtain ⟨r, hr, rfl⟩ := List.mem_map.1 hq
    exact ⟨r, hrels.nonempty r (List.mem_append_left _ hr), rfl⟩
  have hzero := ((Disk.resolve_text_ok h.normal).1 h.leads).1.1
  have htarget := hinside.resolve h.normal hzero houtside ⟨tree, h.find?⟩ (show Disk.Aim.target ≠ .writing by decide)
    (by simp) hempty hshort
  obtain ⟨moment', hremove, hclears'⟩ := removeFolder_inside h.normal hzero houtside ⟨tree, h.find?⟩ hinside hempty hshort
  refine ⟨moment', deleteOne_empty htarget hremove, ?_⟩
  rw [List.map_append]
  exact hclears.trans hclears'

end Steps

/-- All of them are deleted, one after the other. -/
theorem foldl_deleteNext_removable (h : disk.HasTree project place tree) (houtside : disk.LeadsFromOutside project place) :
    ∀ (todo done : List (List Text)) {moment : Disk}, Removable project tree (done ++ todo) →
      Clears (done.map (place ++ ·)) disk moment →
      ∃ disk', (todo.map fun rel => (⟨project.anchor, project.parts ++ rel⟩ : Path)).foldl deleteNext
          (.ok ⟨done.map fun rel => (folderAt project rel).path, [], []⟩, moment) =
            (.ok ⟨(done ++ todo).map fun rel => (folderAt project rel).path, [], []⟩, disk') ∧
        Clears ((done ++ todo).map (place ++ ·)) disk disk'
  | [], done, moment, _, hclears => ⟨moment, by rw [List.append_nil]; rfl, by rwa [List.append_nil]⟩
  | rel :: todo, done, moment, hrels, hclears => by
    obtain ⟨moment', hstep, hclears'⟩ := hrels.deleted h hclears houtside
    rw [List.append_cons] at hrels ⊢
    obtain ⟨disk', hrun, hall⟩ := foldl_deleteNext_removable h houtside todo (done ++ [rel]) hrels hclears'
    refine ⟨disk', ?_, hall⟩
    rw [← hrun, List.map_cons, List.foldl_cons, deleteNext, hstep, List.map_append]
    rfl

/-- Folders of a project are deleted by their paths, those first that lie deepest in it. -/
theorem delete_folders (h : disk.HasTree project place tree) (hnames : ∀ rel ∈ rels, ∀ n ∈ rel, IsName n) :
    delete ((rels.map (folderAt project)).map EmptyFolder.path) disk =
      ((rels.mergeSort fun r s => s.length ≤ r.length).map fun rel => (⟨project.anchor, project.parts ++ rel⟩ : Path)).foldl
        deleteNext (.ok ⟨[], [], []⟩, disk) := by
  have hpaths : ((rels.map (folderAt project)).map EmptyFolder.path).map Path.ofText =
      rels.map fun rel => (⟨project.anchor, project.parts ++ rel⟩ : Path) := by
    rw [List.map_map, List.map_map]
    exact List.map_congr_left fun rel hrel => Path.ofText_text (Disk.normal_below h.normal (hnames rel hrel))
  have hsorted : deepestFirst (rels.map fun rel => (⟨project.anchor, project.parts ++ rel⟩ : Path)) =
      (rels.mergeSort fun r s => s.length ≤ r.length).map fun rel => (⟨project.anchor, project.parts ++ rel⟩ : Path) := by
    refine (List.map_mergeSort fun r _ s _ => ?_).symm
    simp [depth, Path.isAbsolute]
  unfold delete
  rw [hpaths, hsorted]

/-! ## What was found -/

theorem mem_found (htree : tree.WellFormed) : rel ∈ roots.flatMap (foundBelow tree) ↔
    (∃ root ∈ roots, ∃ names, names ≠ [] ∧ rel = Path.partsOf root ++ names) ∧ tree.OnlyFoldersAt rel := by
  simp only [List.mem_flatMap, mem_foundBelow htree]
  constructor
  · rintro ⟨root, hroot, hnames, honly⟩
    exact ⟨⟨root, hroot, hnames⟩, honly⟩
  · rintro ⟨⟨root, hroot, hnames⟩, honly⟩
    exact ⟨root, hroot, hnames, honly⟩

/-- With a folder all folders in it are found. -/
theorem found_below (htree : tree.WellFormed) (hrel : rel ∈ roots.flatMap (foundBelow tree))
    (hmore : tree.FolderAt (rel ++ more)) : rel ++ more ∈ roots.flatMap (foundBelow tree) := by
  rw [mem_found htree] at hrel ⊢
  obtain ⟨⟨root, hroot, names, hne, rfl⟩, honly⟩ := hrel
  exact ⟨⟨root, hroot, names ++ more, by simp [hne], List.append_assoc ..⟩, honly.below hmore⟩

/-- What was found can be removed, the deepest folders first. -/
theorem removable_of_found (htree : tree.WellFormed) (hroots : Apart tree roots)
    (hshort : ∀ rel ∈ roots.flatMap (foundBelow tree),
      (Utf8.encode (Path.mk project.anchor (project.parts ++ rel)).text).length ≤ Disk.pathLimit) :
    Removable project tree ((roots.flatMap (foundBelow tree)).mergeSort fun r s => s.length ≤ r.length) where
  nonempty rel hrel := by
    obtain ⟨⟨root, -, names, hne, rfl⟩, -⟩ := (mem_found htree).1 (List.mem_mergeSort.1 hrel)
    simp [hne]
  only rel hrel := ((mem_found htree).1 (List.mem_mergeSort.1 hrel)).2
  closed rel hrel n hn := List.mem_mergeSort.2 (found_below htree (List.mem_mergeSort.1 hrel) hn)
  short rel hrel := hshort rel (List.mem_mergeSort.1 hrel)
  nodup := (List.mergeSort_perm ..).nodup_iff.2 (hroots.nodup htree)
  deepest := by
    refine (List.pairwise_mergeSort (fun r s t hrs hst => ?_) (fun r s => ?_) _).imp fun {r s} h => of_decide_eq_true h
    · simp only [decide_eq_true_eq] at hrs hst ⊢
      omega
    · simp only [Bool.or_eq_true, decide_eq_true_eq]
      omega

/-! ## What is left -/

/-- Where there are only folders when folders were cleared, there were only folders before. -/
theorem onlyFoldersAt_before {gone : List (List Text)} (h : disk.HasTree project place tree)
    (h' : disk'.HasTree project place tree') (hclears : Clears gone disk disk') (honly : tree'.OnlyFoldersAt rel) : tree.OnlyFoldersAt rel := by
  obtain ⟨⟨inside, hinside⟩, hall⟩ := honly
  constructor
  · obtain ⟨⟨f, hf, hshell⟩, -⟩ := hclears.cleared.stood ((h'.find?_below rel).trans hinside)
    obtain ⟨d, rfl⟩ := Entry.shell_eq_folder.1 hshell
    exact ⟨d, (h.find?_below rel).symm.trans hf⟩
  · intro more e he
    by_contra hleaf
    -- a file or a link would still be there
    have hstays := hclears.cleared.leaf (fun d hd => hleaf ⟨d, hd⟩) ((h.find?_below _).trans he)
    exact hleaf (hall more e ((h'.find?_below _).symm.trans hstays))

/-- The project after the folders that were found are gone. -/
theorem hasTree_after (h : disk.HasTree project place tree) (houtside : disk.LeadsFromOutside project place)
    (hclears : Clears (rels.map (place ++ ·)) disk disk') (hne : ∀ rel ∈ rels, rel ≠ []) :
    ∃ tree', disk'.HasTree project place tree' := by
  have hinside : ClearsInside disk place disk' := by
    refine ⟨_, hclears, fun q hq => ?_⟩
    obtain ⟨r, hr, rfl⟩ := List.mem_map.1 hq
    exact ⟨r, hne r hr, rfl⟩
  obtain ⟨tree', hleads⟩ := hinside.leads houtside ⟨tree, h.find?⟩
  exact ⟨tree', hclears.wellFormed, h.normal,
    (Disk.resolve_text_ok h.normal).2 ⟨((Disk.resolve_text_ok h.normal).1 h.leads).1, hleads⟩⟩

/-- What stands in the project stood there before, and a link was a link. -/
theorem stood_before {gone : List (List Text)} (h : disk.HasTree project place tree)
    (h' : disk'.HasTree project place tree') (hclears : Clears gone disk disk') {e : Entry}
    (he : tree'.find? rel = some e) : ∃ f, tree.find? rel = some f ∧ ∀ t, e = .link t → f = .link t := by
  obtain ⟨⟨f, hf, hshell⟩, -⟩ := hclears.cleared.stood ((h'.find?_below rel).trans he)
  rw [h.find?_below] at hf
  refine ⟨f, hf, ?_⟩
  rintro t rfl
  exact Entry.shell_eq_link.1 hshell

theorem apart_after {gone : List (List Text)} (h : disk.HasTree project place tree)
    (h' : disk'.HasTree project place tree') (hclears : Clears gone disk disk') (hroots : Apart tree roots) : Apart tree' roots where
  here := hroots.here
  down := hroots.down
  plain root hroot front hfront t hlink := by
    obtain ⟨f, hf, hlinked⟩ := stood_before h h' hclears hlink
    exact hroots.plain root hroot front hfront t (hlinked t rfl ▸ hf)
  apart := hroots.apart

theorem answers_after {gone : List (List Text)} {root : Text} (h : disk.HasTree project place tree)
    (h' : disk'.HasTree project place tree') (hclears : Clears gone disk disk') (hasks : Answers disk project tree root) :
    Answers disk' project tree' root := by
  intro names hnames
  have hbefore : names = [] ∨ ∃ e, tree.find? (Path.partsOf root ++ names) = some e := by
    refine hnames.imp_right fun ⟨e, he⟩ => ?_
    obtain ⟨f, hf, -⟩ := stood_before h h' hclears he
    exact ⟨f, hf⟩
  obtain ⟨b, hb⟩ := hasks names hbefore
  exact hclears.isFolder hb

/-- Nothing is found any more. -/
theorem find_after (h : disk.HasTree project place tree) (houtside : disk.LeadsFromOutside project place)
    (hroots : Apart tree roots)
    (hasks : ∀ root ∈ roots, Answers disk project tree root)
    (hclears : Clears ((roots.flatMap (foundBelow tree)).map (place ++ ·)) disk disk') : find disk' project roots = .ok [] := by
  have htree := h.tree_wellFormed
  obtain ⟨tree', h'⟩ := hasTree_after h houtside hclears fun rel hrel => by
    obtain ⟨⟨root, -, names, hne, rfl⟩, -⟩ := (mem_found htree).1 hrel
    simp [hne]
  have hnone : roots.flatMap (foundBelow tree') = [] := by
    rw [List.eq_nil_iff_forall_not_mem]
    intro rel hrel
    obtain ⟨hnames, honly⟩ := (mem_found h'.tree_wellFormed).1 hrel
    have hrel := (mem_found htree).2 ⟨hnames, onlyFoldersAt_before h h' hclears honly⟩
    obtain ⟨inside, hinside⟩ := honly.1
    rw [← h'.find?_below, hclears.cleared.lost _ (List.mem_map_of_mem hrel)] at hinside
    cases hinside
  rw [find_eq h' (apart_after h h' hclears hroots) fun root hroot => answers_after h h' hclears (hasks root hroot), hnone]
  rfl

/-- Every folder stays that was not found. -/
theorem folder_after (h : disk.HasTree project place tree)
    (hshort : ∀ rel ∈ roots.flatMap (foundBelow tree),
      (Utf8.encode (Path.mk project.anchor (project.parts ++ rel)).text).length ≤ Disk.pathLimit)
    (hclears : Clears ((roots.flatMap (foundBelow tree)).map (place ++ ·)) disk disk') {path : List Text}
    (hpath : disk.root.FolderAt path)
    (hother : ∀ rel ∈ roots.flatMap (foundBelow tree), ¬ disk.ReachesFolder (folderAt project rel).path path) :
    disk'.root.FolderAt path := by
  refine (hclears.cleared.folderAt hpath).resolve_right ?_
  rintro ⟨q, hq, hprefix⟩
  obtain ⟨rel, hrel, rfl⟩ := List.mem_map.1 hq
  obtain ⟨more, rfl⟩ := hprefix
  obtain ⟨inside, he⟩ := hpath
  rw [List.append_assoc, h.find?_below] at he
  have hmore := found_below h.tree_wellFormed hrel ⟨inside, he⟩
  have hnames := (h.tree_wellFormed.find? he).1
  refine hother _ hmore ⟨inside, ?_⟩
  rw [List.append_assoc]
  exact (Disk.resolve_text_ok (Disk.normal_below h.normal hnames)).2
    ⟨⟨h.zero_not_mem hnames, hshort _ hmore⟩, h.leads_folder he⟩

/-- When all folders that were found are to be deleted, each of them is deleted, once, and nothing is skipped or fails.
Then there is nothing left to be found; and every file, every link and every other folder is still there. The path of the
project leads there from outside, as every path over names does. -/
theorem delete_found (h : disk.HasTree project place tree) (houtside : disk.LeadsFromOutside project place)
    (hroots : Apart tree roots) (hfound : find disk project roots = .ok found) :
    ∃ r disk', delete (found.map EmptyFolder.path) disk = (.ok r, disk') ∧
      r.deleted.Perm (found.map EmptyFolder.path) ∧ r.deleted.Nodup ∧ r.skipped = [] ∧ r.errors = [] ∧
      find disk' project roots = .ok [] ∧
      (∀ path e, (∀ inside, e ≠ .folder inside) → disk.root.find? path = some e → disk'.root.find? path = some e) ∧
      ∀ path, disk.root.FolderAt path → (∀ t ∈ r.deleted, ¬ disk.ReachesFolder t path) → disk'.root.FolderAt path := by
  have htree := h.tree_wellFormed
  obtain ⟨hasks, rfl⟩ := found_eq h hroots hfound
  have hstands : ∀ rel ∈ roots.flatMap (foundBelow tree), ∃ e, tree.find? rel = some e := by
    intro rel hrel
    obtain ⟨-, ⟨inside, hinside⟩, -⟩ := (mem_found htree).1 hrel
    exact ⟨_, hinside⟩
  have hnames : ∀ rel ∈ roots.flatMap (foundBelow tree), ∀ n ∈ rel, IsName n := by
    intro rel hrel
    obtain ⟨e, he⟩ := hstands rel hrel
    exact (htree.find? he).1
  have hshort : ∀ rel ∈ roots.flatMap (foundBelow tree),
      (Utf8.encode (Path.mk project.anchor (project.parts ++ rel)).text).length ≤ Disk.pathLimit := by
    -- the search has asked about all that it found
    intro rel hrel
    obtain ⟨⟨root, hroot, names, -, rfl⟩, ⟨inside, hinside⟩, -⟩ := (mem_found htree).1 hrel
    exact (hasks root hroot).short h hinside
  obtain ⟨disk', hrun, hclears⟩ := foldl_deleteNext_removable h houtside _ []
    (removable_of_found htree hroots hshort) (Disk.clears_refl h.wellFormed)
  rw [List.nil_append] at hrun hclears
  have hperm := List.mergeSort_perm (roots.flatMap (foundBelow tree)) fun r s => s.length ≤ r.length
  have hgone := hclears.perm (hperm.map (place ++ ·))
  have hdeleted := hperm.map fun rel => (folderAt project rel).path
  have hnodup := nodup_paths h (hroots.nodup htree) hstands
  rw [List.map_map] at hnodup
  refine ⟨_, disk', (delete_folders h hnames).trans hrun, by rwa [List.map_map], hdeleted.nodup_iff.2 hnodup, rfl, rfl,
    find_after h houtside hroots hasks hgone, fun path e hleaf he => hgone.cleared.leaf hleaf he, fun path hpath hother => ?_⟩
  exact folder_after h hshort hgone hpath fun rel hrel => hother _ (hdeleted.mem_iff.2 (List.mem_map_of_mem hrel))

theorem sample_delete_found : Sample.mixedDisk.HasTree Sample.project ["p"] Sample.mixedTree ∧
    Sample.mixedDisk.LeadsFromOutside Sample.project ["p"] ∧
    Apart Sample.mixedTree Sample.searched ∧
    find Sample.mixedDisk Sample.project Sample.searched = .ok Sample.mixedFolders ∧
    ∃ r disk', delete (Sample.mixedFolders.map EmptyFolder.path) Sample.mixedDisk = (.ok r, disk') ∧
      r.deleted.Perm (Sample.mixedFolders.map EmptyFolder.path) ∧ r.deleted.Nodup ∧ r.skipped = [] ∧ r.errors = [] ∧
      find disk' Sample.project Sample.searched = .ok [] ∧
      (∀ path e, (∀ inside, e ≠ .folder inside) → Sample.mixedDisk.root.find? path = some e →
        disk'.root.find? path = some e) ∧
      ∀ path, Sample.mixedDisk.root.FolderAt path →
        (∀ t ∈ r.deleted, ¬ Sample.mixedDisk.ReachesFolder t path) → disk'.root.FolderAt path := by
  have htree : Sample.mixedDisk.HasTree Sample.project ["p"] Sample.mixedTree :=
    ⟨by decide +kernel, by decide +kernel, by decide +kernel⟩
  have houtside : Sample.mixedDisk.LeadsFromOutside Sample.project ["p"] :=
    Disk.leadsFromOutside_of_names (d := Sample.mixedTree) htree.wellFormed [] rfl htree.find?
  have hroots : Apart Sample.mixedTree Sample.searched :=
    ⟨by decide +kernel, by decide +kernel, by decide +kernel, by decide +kernel⟩
  have hfound : find Sample.mixedDisk Sample.project Sample.searched = .ok Sample.mixedFolders := by decide +kernel
  exact ⟨htree, houtside, hroots, hfound, delete_found htree houtside hroots hfound⟩

end EmptyFolders

end ActionSweep
