/-
The account of a deletion. Whatever the paths are, every one of them is reported once, files and links stay, what is
reported as deleted is gone, and every folder that is gone was at or below one reported as deleted; unless it was below
one that could not be removed, to which a path led that does not name it.
-/
import ActionSweep.Proofs.Folders.Removal
import ActionSweep.Proofs.Sample

namespace ActionSweep.EmptyFolders

open Disk (Clears)

variable {disk moment disk' : Disk} {path : Path} {done todo : List Path} {r : FolderDeletion} {gone : List (List Text)}

/-! ## One step -/

/-- What a deletion has done so far: which paths were reported as what, and why each place is clear. -/
structure Account (disk : Disk) (done : List Path) (r : FolderDeletion) (gone : List (List Text)) (disk' : Disk) : Prop where
  clears : Clears gone disk disk'
  covered : (r.deleted ++ r.skipped ++ r.errors.map (·.1)).Perm (done.map Path.text)
  missing : ∀ t ∈ r.deleted, disk'.present t = .ok false
  traced : ∀ q ∈ gone, (∃ t ∈ r.deleted, ∃ place, disk.ReachesFolder t place ∧ place <+: q) ∨
    ∃ t ∈ r.errors.map (·.1), ∃ place, disk.ReachesFolder t place ∧ place <+: q ∧ ¬ disk.NamesFolder t place

theorem account_nothing (hroot : disk.root.WellFormed) : Account disk [] ⟨[], [], []⟩ [] disk :=
  ⟨Disk.clears_refl hroot, .refl _, by simp, by simp⟩

/-- One more path in one of the three lists. -/
theorem covered_concat {a b c : List Text} {t : Text} (h : (a ++ b ++ c).Perm (done.map Path.text)) {l : List Text}
    (hl : l = (a ++ [t]) ++ b ++ c ∨ l = a ++ (b ++ [t]) ++ c ∨ l = a ++ b ++ (c ++ [t])) (ht : t = path.text) :
    l.Perm ((done ++ [path]).map Path.text) := by
  rw [List.map_append, List.map_cons, List.map_nil, ← ht]
  rw [List.perm_iff_count] at h ⊢
  intro x
  have hx := h x
  rcases hl with rfl | rfl | rfl
  all_goals
    simp only [List.count_append] at hx ⊢
    omega

theorem Account.skip (h : Account disk done r gone moment) (path : Path) :
    Account disk (done ++ [path]) { r with skipped := r.skipped ++ [path.text] } gone moment where
  clears := h.clears
  covered := covered_concat h.covered (.inr (.inl rfl)) rfl
  missing := h.missing
  traced := h.traced

/-- A fault before anything was removed. -/
theorem Account.refuse (h : Account disk done r gone moment) (path : Path) (message : Text) :
    Account disk (done ++ [path]) { r with errors := r.errors ++ [(path.text, message)] } gone moment where
  clears := h.clears
  covered := covered_concat h.covered (.inr (.inr (by rw [List.map_append]; rfl))) rfl
  missing := h.missing
  traced q hq := by
    refine (h.traced q hq).imp_right ?_
    rintro ⟨t, ht, hplace⟩
    exact ⟨t, by simp [ht], hplace⟩

/-- A folder was removed with all that was in it. -/
theorem Account.delete (h : Account disk done r gone moment) {place : List Text} {more : List (List Text)}
    (hbelow : ClearsBelow moment path place more disk') (hgone : disk'.root.find? place = none) :
    Account disk (done ++ [path]) { r with deleted := r.deleted ++ [path.text] } (gone ++ more) disk' where
  clears := h.clears.trans hbelow.clears
  covered := covered_concat h.covered (.inl rfl) rfl
  missing t ht := by
    rcases List.mem_append.1 ht with ht | ht
    · exact hbelow.clears.missing (h.missing t ht)
    · rw [List.mem_singleton.1 ht]
      obtain ⟨d, hd⟩ := hbelow.leads
      exact hbelow.clears.missing_of_none hd hgone
  traced q hq := by
    rcases List.mem_append.1 hq with hq | hq
    · refine (h.traced q hq).imp_left ?_
      rintro ⟨t, ht, hplace⟩
      exact ⟨t, by simp [ht], hplace⟩
    · exact .inl ⟨path.text, by simp, place, h.clears.reachesFolder hbelow.leads, hbelow.below q hq⟩

/-- The removal of a folder stopped in between. -/
theorem Account.stop (h : Account disk done r gone moment) (hpath : path.Normal) {place : List Text} {more : List (List Text)}
    (hbelow : ClearsBelow moment path place more disk') (hnames : ¬ moment.NamesFolder path.text place) (message : Text) :
    Account disk (done ++ [path]) { r with errors := r.errors ++ [(path.text, message)] } (gone ++ more) disk' where
  clears := h.clears.trans hbelow.clears
  covered := covered_concat h.covered (.inr (.inr (by rw [List.map_append]; rfl))) rfl
  missing t ht := hbelow.clears.missing (h.missing t ht)
  traced q hq := by
    rcases List.mem_append.1 hq with hq | hq
    · refine (h.traced q hq).imp_right ?_
      rintro ⟨t, ht, hplace⟩
      exact ⟨t, by simp [ht], hplace⟩
    · refine .inr ⟨path.text, by simp, place, h.clears.reachesFolder hbelow.leads, hbelow.below q hq, fun hbefore => ?_⟩
      exact hnames (hbefore.cleared hpath h.clears hbelow.leads)

/-- Every path is accounted for, whatever becomes of it. -/
theorem deleteNext_accounts (h : Account disk done r gone moment) (hpath : path.Normal) :
    ∃ r' gone' disk', deleteNext (.ok r, moment) path = (.ok r', disk') ∧ Account disk (done ++ [path]) r' gone' disk' := by
  have hattempt := deleteOne_attempt h.clears.wellFormed hpath
  unfold deleteNext
  dsimp only
  generalize deleteOne path moment = x at hattempt ⊢
  cases hattempt with
  | skipped => exact ⟨_, _, _, rfl, h.skip path⟩
  | refused hf =>
    dsimp only
    rw [if_pos hf]
    exact ⟨_, _, _, rfl, h.refuse path _⟩
  | deleted hbelow hgone => exact ⟨_, _, _, rfl, h.delete hbelow hgone⟩
  | stopped hbelow hf hnames =>
    dsimp only
    rw [if_pos hf]
    exact ⟨_, _, _, rfl, h.stop hpath hbelow hnames _⟩

/-! ## A whole deletion -/

theorem foldl_accounts : ∀ {todo done : List Path} {r : FolderDeletion} {gone : List (List Text)} {moment : Disk},
    Account disk done r gone moment → (∀ path ∈ todo, path.Normal) →
    ∃ r' gone' disk', todo.foldl deleteNext (.ok r, moment) = (.ok r', disk') ∧ Account disk (done ++ todo) r' gone' disk'
  | [], done, r, gone, moment, h, _ => ⟨r, gone, moment, rfl, by rwa [List.append_nil]⟩
  | path :: todo, done, r, gone, moment, h, hnormal => by
    obtain ⟨r₁, gone₁, moment₁, hstep, h₁⟩ := deleteNext_accounts h (hnormal path (List.mem_cons_self ..))
    obtain ⟨r', gone', disk', hrun, h'⟩ := foldl_accounts h₁ fun q hq => hnormal q (List.mem_cons_of_mem path hq)
    refine ⟨r', gone', disk', ?_, by rwa [List.append_assoc] at h'⟩
    rw [List.foldl_cons, hstep, hrun]

theorem delete_account (hroot : disk.root.WellFormed) (paths : List Text) :
    ∃ r gone disk', delete paths disk = (.ok r, disk') ∧
      Account disk (deepestFirst (paths.map Path.ofText)) r gone disk' := by
  refine foldl_accounts (account_nothing hroot) fun path hpath => ?_
  obtain ⟨t, -, rfl⟩ := List.mem_map.1 (List.mem_mergeSort.1 hpath)
  exact Path.normal_ofText t

/-- A deletion ends well for every list of paths. Each is reported once, as deleted, skipped or failed; no file and no
link is removed; and at no path that is reported as deleted there is anything afterwards. -/
theorem delete_reports_all (hroot : disk.root.WellFormed) (paths : List Text) :
    ∃ r disk', delete paths disk = (.ok r, disk') ∧
    (r.deleted ++ r.skipped ++ r.errors.map (·.1)).Perm (paths.map fun t => (Path.ofText t).text) ∧
    (∀ place e, (∀ inside, e ≠ .folder inside) → disk.root.find? place = some e → disk'.root.find? place = some e) ∧
    ∀ t ∈ r.deleted, disk'.present t = .ok false := by
  obtain ⟨r, gone, disk', hrun, haccount⟩ := delete_account hroot paths
  refine ⟨r, disk', hrun, haccount.covered.trans ?_,
    fun place e hleaf he => haccount.clears.cleared.leaf hleaf he, haccount.missing⟩
  have hperm := (List.mergeSort_perm (paths.map Path.ofText) fun p q => depth q ≤ depth p).map Path.text
  rwa [List.map_map] at hperm

theorem sample_delete_reports_all : Sample.mixedDisk.root.WellFormed ∧ ∃ r disk',
    delete Sample.mixedPaths Sample.mixedDisk = (.ok r, disk') ∧
    (r.deleted ++ r.skipped ++ r.errors.map (·.1)).Perm (Sample.mixedPaths.map fun t => (Path.ofText t).text) ∧
    (∀ place e, (∀ inside, e ≠ .folder inside) → Sample.mixedDisk.root.find? place = some e →
      disk'.root.find? place = some e) ∧
    ∀ t ∈ r.deleted, disk'.present t = .ok false :=
  have hroot : Sample.mixedDisk.root.WellFormed := by decide +kernel
  ⟨hroot, delete_reports_all hroot Sample.mixedPaths⟩

/-! ## What is left alone -/

/-- Every folder that goes was at or below one that is reported as deleted, or below one that could not be removed as a
whole, because the path to it does not name it. -/
theorem folder_traced (hroot : disk.root.WellFormed) {paths : List Text} (h : delete paths disk = (.ok r, disk'))
    {q : List Text} (hq : disk.root.FolderAt q) :
    disk'.root.FolderAt q ∨ (∃ s ∈ r.deleted, ∃ place, disk.ReachesFolder s place ∧ place <+: q) ∨
      ∃ s ∈ r.errors.map (·.1), ∃ place, disk.ReachesFolder s place ∧ place <+: q ∧ ¬ disk.NamesFolder s place := by
  obtain ⟨r', gone, disk'', hrun, haccount⟩ := delete_account hroot paths
  rw [h] at hrun
  cases hrun
  refine (haccount.clears.cleared.folderAt hq).imp_right ?_
  rintro ⟨p, hp, hprefix⟩
  rcases haccount.traced p hp with ⟨s, hs, place, hreaches, hplace⟩ | ⟨s, hs, place, hreaches, hplace, hnames⟩
  · exact .inl ⟨s, hs, place, hreaches, hplace.trans hprefix⟩
  · exact .inr ⟨s, hs, place, hreaches, hplace.trans hprefix, hnames⟩

/-- At, below and behind a path that was skipped or failed every folder stays, apart from those at or below a path that
is reported as deleted, and those below a path that failed and does not name the folder to which it leads. -/
theorem undeleted_intact (hroot : disk.root.WellFormed) {paths : List Text} (h : delete paths disk = (.ok r, disk')) :
    ∀ t, t ∈ r.skipped ∨ t ∈ r.errors.map (·.1) → ∀ top, disk.LeadsTo .target t top →
      ∀ q, top <+: q → disk.root.FolderAt q → disk'.root.FolderAt q ∨
        (∃ s ∈ r.deleted, ∃ place, disk.ReachesFolder s place ∧ place <+: q) ∨
        ∃ s ∈ r.errors.map (·.1), ∃ place, disk.ReachesFolder s place ∧ place <+: q ∧ ¬ disk.NamesFolder s place :=
  fun _ _ _ _ _ _ hq => folder_traced hroot h hq

theorem delete_singleton (t : Text) (disk : Disk) :
    delete [t] disk = deleteNext (.ok ⟨[], [], []⟩, disk) (Path.ofText t) := by
  unfold delete deepestFirst
  rw [List.map_cons, List.map_nil, List.mergeSort_singleton]
  rfl

/-- A folder in which a file was put is skipped, with the folder that is in it. -/
theorem sample_undeleted_intact : Sample.filledDisk.root.WellFormed ∧
    ∃ r disk', delete [Sample.oneFolder] Sample.filledDisk = (.ok r, disk') ∧ r.skipped = [Sample.oneFolder] ∧
      ∀ t, t ∈ r.skipped ∨ t ∈ r.errors.map (·.1) → ∀ top, Sample.filledDisk.LeadsTo .target t top →
        ∀ q, top <+: q → Sample.filledDisk.root.FolderAt q → disk'.root.FolderAt q ∨
          (∃ s ∈ r.deleted, ∃ place, Sample.filledDisk.ReachesFolder s place ∧ place <+: q) ∨
          ∃ s ∈ r.errors.map (·.1), ∃ place, Sample.filledDisk.ReachesFolder s place ∧ place <+: q ∧
            ¬ Sample.filledDisk.NamesFolder s place := by
  have hroot : Sample.filledDisk.root.WellFormed := by decide +kernel
  have hresult : (deleteNext (.ok ⟨[], [], []⟩, Sample.filledDisk) (Path.ofText Sample.oneFolder)).1 =
      .ok ⟨[], [Sample.oneFolder], []⟩ := by decide +kernel
  have hrun := (delete_singleton Sample.oneFolder Sample.filledDisk).trans (Prod.ext hresult rfl)
  exact ⟨hroot, _, _, hrun, rfl, undeleted_intact hroot hrun⟩

/-- A folder that was found was replaced by a link to another one. What is in that one is removed, though nothing is
reported as deleted. -/
theorem link_target_emptied :
    find (Sample.foldersDisk Sample.oneEmpty) Sample.project ["app/api"] = .ok [⟨Sample.oneFolder, "app/api/e"⟩] ∧
      ∃ r disk', delete [Sample.oneFolder] Sample.replacedDisk = (.ok r, disk') ∧ r.deleted = [] ∧
        Sample.oneFolder ∈ r.errors.map (·.1) ∧ Sample.replacedDisk.LeadsTo .target Sample.oneFolder ["p", "other", "t"] ∧
        Sample.replacedDisk.root.FolderAt ["p", "other", "t", "s"] ∧ ¬ disk'.root.FolderAt ["p", "other", "t", "s"] := by
  obtain ⟨r, hresult, hdeleted, herrors⟩ :
      ∃ r, (deleteNext (.ok ⟨[], [], []⟩, Sample.replacedDisk) (Path.ofText Sample.oneFolder)).1 = .ok r ∧
      r.deleted = [] ∧ r.errors.map (·.1) = [Sample.oneFolder] := Outcome.ok_of_check (by decide +kernel)
  have hgone : (deleteNext (.ok ⟨[], [], []⟩, Sample.replacedDisk) (Path.ofText Sample.oneFolder)).2.root.find?
      ["p", "other", "t", "s"] = none := by decide +kernel
  have hfailed : Sample.oneFolder ∈ r.errors.map (·.1) := by
    rw [herrors]
    exact List.mem_singleton_self _
  have hfind : find (Sample.foldersDisk Sample.oneEmpty) Sample.project ["app/api"] =
      .ok [⟨Sample.oneFolder, "app/api/e"⟩] := by decide +kernel
  have hleads : Sample.replacedDisk.LeadsTo .target Sample.oneFolder ["p", "other", "t"] := by decide +kernel
  have hbefore : Sample.replacedDisk.root.FolderAt ["p", "other", "t", "s"] := ⟨.empty, by decide +kernel⟩
  rw [delete_singleton]
  -- from here on the run is not to be evaluated again
  generalize deleteNext (.ok ⟨[], [], []⟩, Sample.replacedDisk) (Path.ofText Sample.oneFolder) = x at hresult hgone ⊢
  exact ⟨hfind, r, x.2, Prod.ext hresult rfl, hdeleted, hfailed, hleads, hbefore, Dir.not_folderAt_of_none hgone⟩

end ActionSweep.EmptyFolders
