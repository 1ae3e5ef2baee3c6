/-
Trees from which folders were cleared. What goes are folders that held nothing but folders, so every file and every
link stays; a path leads where it led before, or to nothing; and a path that leads to a folder whatever that folder
holds leads to it still while what it holds goes.
-/
import ActionSweep.Proofs.Files.Removal
import ActionSweep.Proofs.Files.Replacing

namespace ActionSweep

namespace Dir

variable {d d' d'' : Dir} {path place : List Text} {e : Entry}

theorem find?_none_below (h : d.find? place = none) (hpath : place <+: path) : d.find? path = none := by
  obtain ⟨more, rfl⟩ := hpath
  rw [find?_append, h]
  rfl

/-- A folder in which no name stands is empty. -/
theorem eq_empty_of_get? : ∀ {d : Dir}, (∀ n, d.get? n = none) → d = .empty
  | .empty, _ => rfl
  | .file n b rest, h | .link n b rest, h | .folder n b rest, h => by
    have hn := h n
    rw [get?, if_pos rfl] at hn
    cases hn

/-! ## Well-formed trees -/

theorem WellFormed.ordered : ∀ {d : Dir}, d.WellFormed → d.Ordered
  | .empty, _ => trivial
  | .file _ _ _, ⟨_, hbelow, hrest⟩ | .link _ _ _, ⟨_, hbelow, hrest⟩ => ⟨hbelow, hrest.ordered⟩
  | .folder _ _ _, ⟨_, hbelow, hd, hrest⟩ => ⟨hbelow, hd.ordered, hrest.ordered⟩

/-- In a well-formed tree the entries are in order, and every path to one is made of names. -/
theorem wellFormed_of_ordered : ∀ {d : Dir}, d.Ordered → (∀ path e, d.find? path = some e → ∀ n ∈ path, IsName n) →
    d.WellFormed
  | .empty, _, _ => trivial
  | .file n b rest, ⟨hbelow, hrest⟩, h => by
    refine ⟨h [n] (.file b) ?_ n (List.mem_singleton_self n), hbelow, wellFormed_of_ordered hrest fun path e he => ?_⟩
    · rw [find?_singleton, get?, if_pos rfl]
    · by_cases hpath : path = []
      · simp [hpath]
      · exact h path e (find?_of_rest (e := .file b) hbelow hpath he)
  | .link n t rest, ⟨hbelow, hrest⟩, h => by
    refine ⟨h [n] (.link t) ?_ n (List.mem_singleton_self n), hbelow, wellFormed_of_ordered hrest fun path e he => ?_⟩
    · rw [find?_singleton, get?, if_pos rfl]
    · by_cases hpath : path = []
      · simp [hpath]
      · exact h path e (find?_of_rest (e := .link t) hbelow hpath he)
  | .folder n inside rest, ⟨hbelow, hinside, hrest⟩, h => by
    have hfirst : ∀ path e, inside.find? path = some e → ∀ m ∈ n :: path, IsName m := fun path e he =>
      h (n :: path) e (by rw [find?_folder, if_pos rfl, he])
    refine ⟨hfirst [] _ rfl n (List.mem_singleton_self n), hbelow,
      wellFormed_of_ordered hinside fun path e he m hm => hfirst path e he m (List.mem_cons_of_mem n hm),
      wellFormed_of_ordered hrest fun path e he => ?_⟩
    by_cases hpath : path = []
    · simp [hpath]
    · exact h path e (find?_of_rest (e := .folder inside) hbelow hpath he)

/-! ## Cleared trees -/

/-- A tree without the folders at some places, in which there was nothing but folders. -/
structure Cleared (gone : List (List Text)) (d d' : Dir) : Prop where
  same : SameBut gone d d'
  lost : ∀ place ∈ gone, d'.find? place = none
  folders : ∀ place ∈ gone, ∀ path e, place <+: path → d.find? path = some e → ∃ inside, e = .folder inside

variable {gone more : List (List Text)}

theorem cleared_refl (d : Dir) : Cleared [] d d := ⟨fun _ _ => rfl, by simp, by simp⟩

/-- What is cleared stays cleared with all below it. -/
theorem Cleared.none (h : Cleared gone d d') (hplace : place ∈ gone) (hpath : place <+: path) : d'.find? path = none :=
  find?_none_below (h.lost place hplace) hpath

/-- What stands at none of the places nor below one stays. -/
theorem Cleared.stays (h : Cleared gone d d') (hout : ∀ place ∈ gone, ¬ place <+: path) (he : d.find? path = some e) :
    d'.StillHas path e := by
  have hshell := h.same path hout
  rw [he, Option.map_some, Option.map_eq_some_iff] at hshell
  exact hshell

/-- What stands somewhere afterwards stood there before. -/
theorem Cleared.stood (h : Cleared gone d d') (he : d'.find? path = some e) :
    d.StillHas path e ∧ ∀ place ∈ gone, ¬ place <+: path := by
  have hout : ∀ place ∈ gone, ¬ place <+: path := by
    intro place hplace hpath
    rw [h.none hplace hpath] at he
    cases he
  refine ⟨?_, hout⟩
  have hshell := h.same path hout
  rw [he, Option.map_some, eq_comm, Option.map_eq_some_iff] at hshell
  exact hshell

/-- Files and links stay. -/
theorem Cleared.leaf (h : Cleared gone d d') (hleaf : ∀ inside, e ≠ .folder inside) (he : d.find? path = some e) :
    d'.find? path = some e := by
  have hout : ∀ place ∈ gone, ¬ place <+: path := by
    intro place hplace hpath
    obtain ⟨inside, rfl⟩ := h.folders place hplace path e hpath he
    exact hleaf inside rfl
  obtain ⟨f, hf, hshell⟩ := h.stays hout he
  cases e with
  | folder inside => exact absurd rfl (hleaf inside)
  | file b => rwa [Entry.shell_eq_file.1 hshell] at hf
  | link t => rwa [Entry.shell_eq_link.1 hshell] at hf

theorem Cleared.folderAt (h : Cleared gone d d') (hpath : d.FolderAt path) :
    d'.FolderAt path ∨ ∃ place ∈ gone, place <+: path := by
  by_cases hout : ∃ place ∈ gone, place <+: path
  · exact .inr hout
  · obtain ⟨inside, hinside⟩ := hpath
    obtain ⟨f, hf, hshell⟩ := h.stays (fun place hplace hpath => hout ⟨place, hplace, hpath⟩) hinside
    obtain ⟨inside', rfl⟩ := Entry.shell_eq_folder.1 hshell
    exact .inl ⟨inside', hf⟩

theorem Cleared.trans (h : Cleared gone d d') (h' : Cleared more d' d'') : Cleared (gone ++ more) d d'' where
  same := h.same.trans h'.same
  lost place hplace := by
    rcases List.mem_append.1 hplace with hplace | hplace
    · cases hfind : d''.find? place with
      | none => rfl
      | some e =>
        obtain ⟨f, hf, -⟩ := (h'.stood hfind).1
        rw [h.lost place hplace] at hf
        cases hf
    · exact h'.lost place hplace
  folders place hplace path e hpath he := by
    rcases List.mem_append.1 hplace with hplace | hplace
    · exact h.folders place hplace path e hpath he
    · by_cases hout : ∃ other ∈ gone, other <+: path
      · obtain ⟨other, hother, hpath⟩ := hout
        exact h.folders other hother path e hpath he
      · obtain ⟨f, hf, hshell⟩ := h.stays (fun other hother hpath => hout ⟨other, hother, hpath⟩) he
        obtain ⟨inside, rfl⟩ := h'.folders place hplace path f hpath hf
        exact Entry.shell_eq_folder.1 hshell.symm

/-- Without an empty folder that is removed. -/
theorem cleared_eraseAt (hd : d.Ordered) (hne : place ≠ []) (hempty : d.find? place = some (.folder .empty)) :
    Cleared [place] d (d.eraseAt place) where
  same := sameBut_eraseAt place d
  lost other hother := by
    rw [List.mem_singleton.1 hother]
    exact hd.find?_eraseAt hne (List.prefix_refl place)
  folders other hother path e hpath he := by
    rw [List.mem_singleton.1 hother] at hpath
    obtain ⟨names, rfl⟩ := hpath
    cases names with
    | nil =>
      rw [List.append_nil, hempty] at he
      cases he
      exact ⟨.empty, rfl⟩
    | cons n names =>
      rw [find?_inside hempty, find?_cons] at he
      cases he

theorem WellFormed.eraseAt (hd : d.WellFormed) (hne : place ≠ []) (hempty : d.find? place = some (.folder .empty)) :
    (d.eraseAt place).WellFormed := by
  refine wellFormed_of_ordered hd.ordered.eraseAt fun path e he n hn => ?_
  obtain ⟨f, hf, -⟩ := ((cleared_eraseAt hd.ordered hne hempty).stood he).1
  exact (hd.find? hf).1 n hn

end Dir

/-! ## Where paths lead afterwards -/

namespace Disk

/-- What a path leads to while a tree loses entries: nothing any more, or the same place. -/
inductive Fades {ε : Type} (fault : FileProblem → ε) : Except ε Place → Except ε Place → Prop
  | absent {x x' : Except ε Place} (h : Absent fault x') : Fades fault x x'
  | found (place : List Text) {e e' : Entry} (h : e'.shell = e.shell) :
      Fades fault (.ok (.found place e)) (.ok (.found place e'))
  | refused (e : ε) : Fades fault (.error e) (.error e)

theorem Fades.mapError {ε ζ : Type} {fault : FileProblem → ε} (f : ε → ζ) {x x' : Except ε Place}
    (h : Fades fault x x') : Fades (fun p => f (fault p)) (x.mapError f) (x'.mapError f) := by
  cases h with
  | absent h =>
    cases h with
    | free folder name => exact .absent (.free folder name)
    | nothing => exact .absent .nothing
  | found place h => exact .found place h
  | refused e => exact .refused (f e)

section Walks

variable {root root' : Dir} {aim : Aim} {jump jump' : List Text → List Text → Except FileProblem Place}

theorem walk_fades (haim : aim ≠ .writing) (hways : ∀ path e, root'.find? path = some e → root.StillHas path e)
    (hjump : ∀ here parts, Fades id (jump here parts) (jump' here parts)) :
    ∀ parts here : List Text, Fades id (walk root aim jump here parts) (walk root' aim jump' here parts)
  | [], here => by
    simp only [walk]
    cases hfind : root'.find? here with
    | none => exact .absent .nothing
    | some e =>
      obtain ⟨f, hf, hshell⟩ := hways here e hfind
      rw [hf]
      exact .found here hshell.symm
  | part :: parts, here => by
    rcases part_cases part with hp | rfl | hp
    · rw [walk_skip hp, walk_skip hp]
      exact walk_fades haim hways hjump parts here
    · rw [walk_up, walk_up]
      exact walk_fades haim hways hjump parts _
    · rw [walk_down hp fun h => absurd h haim, walk_down hp fun h => absurd h haim]
      split
      · exact .refused _
      cases hfind : root'.find? (here ++ [part]) with
      | none =>
        refine .absent ?_
        dsimp only
        split
        · exact .free here part
        · exact .nothing
      | some e =>
        obtain ⟨f, hf, hshell⟩ := hways _ e hfind
        rw [hf]
        cases e with
        | folder inside =>
          obtain ⟨inside', rfl⟩ := Entry.shell_eq_folder.1 hshell
          exact walk_fades haim hways hjump parts _
        | file b =>
          rw [Entry.shell_eq_file.1 hshell]
          dsimp only
          split
          · exact .found _ rfl
          · exact .refused _
        | link t =>
          rw [Entry.shell_eq_link.1 hshell]
          dsimp only
          split
          · exact .found _ rfl
          · exact hjump _ _

theorem resolveParts_fades (haim : aim ≠ .writing) (hways : ∀ path e, root'.find? path = some e → root.StillHas path e) :
    ∀ (n : Nat) (here parts : List Text), Fades id (resolveParts root aim n here parts) (resolveParts root' aim n here parts)
  | 0, here, parts => walk_fades haim hways (fun _ _ => .refused _) parts here
  | n + 1, here, parts => walk_fades haim hways (resolveParts_fades haim hways n) parts here

/-- What is found by a path that ends with a name, and is not behind a link there, has that name. -/
theorem walk_last {n : Text} (hn : n ≠ [] ∧ n ≠ ['.'] ∧ n ≠ ['.', '.'])
    (hjump : ∀ here front x, jump here (front ++ [n]) = .ok x → ∃ folder, x.path = folder ++ [n]) :
    ∀ (front here : List Text) {x : Place}, walk root .entry jump here (front ++ [n]) = .ok x →
      ∃ folder, x.path = folder ++ [n]
  | [], here, x, h => by
    rw [List.nil_append, walk_down hn (by rintro ⟨⟩)] at h
    refine ⟨here, ?_⟩
    split at h
    · cases h
    split at h
    · cases h
      rfl
    · rename_i inside hinside
      simp only [walk, hinside] at h
      cases h
      rfl
    · cases h
      rfl
    · cases h
      rfl
  | part :: front, here, x, h => by
    rw [List.cons_append] at h
    rcases part_cases part with hp | rfl | hp
    · rw [walk_skip hp] at h
      exact walk_last hn hjump front here h
    · rw [walk_up] at h
      exact walk_last hn hjump front _ h
    · have hmore : (front ++ [n]).isEmpty = false := by simp
      rw [walk_down hp (by rintro ⟨⟩), hmore] at h
      split at h
      · cases h
      split at h
      · cases h
      · exact walk_last hn hjump front _ h
      · cases h
      · rw [Bool.false_and, if_neg (by decide), ← List.append_assoc] at h
        exact hjump _ _ x h

theorem resolveParts_last {n : Text} (hn : n ≠ [] ∧ n ≠ ['.'] ∧ n ≠ ['.', '.']) :
    ∀ {links : Nat} {here front : List Text} {x : Place}, resolveParts root .entry links here (front ++ [n]) = .ok x →
      ∃ folder, x.path = folder ++ [n]
  | 0, here, front, x, h => walk_last hn (by rintro _ _ _ ⟨⟩) front here h
  | _ + 1, here, front, x, h => walk_last hn (fun _ _ _ h => resolveParts_last hn h) front here h

/-- What two trees find, that have nothing but what stands in a third, is found where both have what is on the way. -/
theorem Finds.both (meet : Dir) {place place' : List Text} {e e' : Entry}
    (hways : ∀ path f f', root.find? path = some f → root'.find? path = some f' →
      f'.shell = f.shell ∧ meet.StillHas path f)
    {n m : Nat} {here parts : List Text} (h : Finds root place e n here parts) (h' : Finds root' place' e' m here parts) :
    ∃ f, f.shell = e.shell ∧ Finds meet place f n here parts := by
  induction h generalizing m with
  | here hfind =>
    cases h' with
    | here hfind' =>
      obtain ⟨-, f, hf, hshell⟩ := hways _ _ _ hfind hfind'
      exact ⟨f, hshell, .here hf⟩
  | stay hpart _ ih =>
    obtain ⟨f, hshell, hf⟩ := ih (finds_stay hpart h')
    exact ⟨f, hshell, .stay hpart hf⟩
  | up _ ih =>
    obtain ⟨f, hshell, hf⟩ := ih (finds_up h')
    exact ⟨f, hshell, .up hf⟩
  | down hpart hfind _ ih =>
    cases finds_down hpart h' with
    | folder hfind' h' =>
      obtain ⟨-, g, hg, hfolder⟩ := hways _ _ _ hfind hfind'
      obtain ⟨inside, rfl⟩ := Entry.shell_eq_folder.1 hfolder
      obtain ⟨f, hshell, hf⟩ := ih h'
      exact ⟨f, hshell, .down hpart hg hf⟩
    | file hfind' _ _ _ | link _ hfind' _ => cases (hways _ _ _ hfind hfind').1
  | file hpart hplace he hfind =>
    subst hplace he
    cases finds_down hpart h' with
    | file hfind' _ _ _ =>
      obtain ⟨-, g, hg, hshell⟩ := hways _ _ _ hfind hfind'
      exact ⟨g, hshell, .file hpart rfl (Entry.shell_eq_file.1 hshell) hg⟩
    | folder hfind' _ | link _ hfind' _ => cases (hways _ _ _ hfind hfind').1
  | link hpart hfind _ ih =>
    cases finds_down hpart h' with
    | link _ hfind' h' =>
      obtain ⟨hlink, g, hg, hshell⟩ := hways _ _ _ hfind hfind'
      cases hlink
      rw [Entry.shell_eq_link.1 hshell] at hg
      obtain ⟨f, hshell, hf⟩ := ih h'
      exact ⟨f, hshell, .link hpart hg hf⟩
    | folder hfind' _ | file hfind' _ _ _ => cases (hways _ _ _ hfind hfind').1

end Walks

/-! ## Disks -/

/-- One disk comes from another one by clearing folders. -/
structure Clears (gone : List (List Text)) (disk disk' : Disk) : Prop where
  disk_eq : disk' = disk.setRoot disk'.root
  cleared : disk.root.Cleared gone disk'.root
  wellFormed : disk'.root.WellFormed

variable {disk disk' disk'' : Disk} {gone more : List (List Text)} {aim : Aim} {t : Text} {place : List Text}

theorem clears_refl (h : disk.root.WellFormed) : Clears [] disk disk := ⟨rfl, Dir.cleared_refl _, h⟩

theorem Clears.trans (h : Clears gone disk disk') (h' : Clears more disk' disk'') : Clears (gone ++ more) disk disk'' where
  disk_eq := by
    rw [h'.disk_eq, h.disk_eq]
    rfl
  cleared := h.cleared.trans h'.cleared
  wellFormed := h'.wellFormed

/-- The order of the places is of no account. -/
theorem Clears.perm (h : Clears gone disk disk') (hperm : gone.Perm more) : Clears more disk disk' where
  disk_eq := h.disk_eq
  cleared := by
    refine ⟨fun path hpath => h.cleared.same path fun place hplace => hpath place (hperm.mem_iff.1 hplace),
      fun place hplace => ?_, fun place hplace => ?_⟩
    · exact h.cleared.lost place (hperm.mem_iff.2 hplace)
    · exact h.cleared.folders place (hperm.mem_iff.2 hplace)
  wellFormed := h.wellFormed

/-- What a text leads to fades, as what its steps lead to does. -/
theorem Clears.resolve (h : Clears gone disk disk') (haim : aim ≠ .writing) (t : Text) :
    Fades (refuse · t) (disk.resolve aim t) (disk'.resolve aim t) := by
  have hwf : disk'.workingFolder = disk.workingFolder := by
    rw [h.disk_eq]
    rfl
  unfold Disk.resolve
  rw [hwf]
  split
  · exact .refused _
  split
  · exact .refused _
  split
  · exact .refused _
  exact (resolveParts_fades haim (fun path e he => (h.cleared.stood he).1) linkLimit _ _).mapError fun problem => refuse problem t

theorem Clears.found (h : Clears gone disk disk') (haim : aim ≠ .writing) {e : Entry}
    (hfound : disk'.resolve aim t = .ok (.found place e)) :
    ∃ f, disk.resolve aim t = .ok (.found place f) ∧ e.shell = f.shell := by
  have hfades := h.resolve haim t
  rw [hfound] at hfades
  generalize disk.resolve aim t = x at hfades ⊢
  cases hfades with
  | absent habsent => cases habsent
  | found _ hshell => exact ⟨_, rfl, hshell⟩

/-- A folder that is found was found before. -/
theorem Clears.folder (h : Clears gone disk disk') (haim : aim ≠ .writing) {d : Dir}
    (hfound : disk'.resolve aim t = .ok (.found place (.folder d))) :
    ∃ d', disk.resolve aim t = .ok (.found place (.folder d')) := by
  obtain ⟨f, hf, hshell⟩ := h.found haim hfound
  obtain ⟨d', rfl⟩ := Entry.shell_eq_folder.1 hshell.symm
  exact ⟨d', hf⟩

/-- What is not there does not come back. -/
theorem Clears.missing (h : Clears gone disk disk') (hmissing : disk.present t = .ok false) : disk'.present t = .ok false := by
  have hfades := h.resolve (show Aim.target ≠ .writing by decide) t
  unfold present test at hmissing ⊢
  generalize disk.resolve .target t = x at hfades hmissing
  generalize disk'.resolve .target t = x' at hfades ⊢
  cases hfades with
  | absent habsent =>
    cases habsent with
    | free folder name => rfl
    | nothing => rfl
  | found place hshell => cases hmissing
  | refused e => exact hmissing

/-- What was found at a place that is cleared is not there. -/
theorem Clears.missing_of_none (h : Clears gone disk disk') {e : Entry}
    (hfound : disk.resolve .target t = .ok (.found place e)) (hnone : disk'.root.find? place = none) :
    disk'.present t = .ok false := by
  have hfades := h.resolve (show Aim.target ≠ .writing by decide) t
  rw [hfound] at hfades
  unfold present test
  cases hx : disk'.resolve .target t with
  | error f =>
    rw [hx] at hfades
    cases hfades with
    | absent habsent =>
      cases habsent with
      | nothing => rfl
  | ok x =>
    cases x with
    | free folder name => rfl
    | found place' e' =>
      have hstands : disk'.root.find? place' = some e' := resolve_stands hx
      obtain ⟨f, hf, -⟩ := h.found (by decide) hx
      rw [hfound] at hf
      cases hf
      rw [hnone] at hstands
      cases hstands

/-- What can be asked about can be asked about afterwards. -/
theorem Clears.isFolder (h : Clears gone disk disk') {b : Bool} (hask : disk.isFolder t = .ok b) :
    ∃ b', disk'.isFolder t = .ok b' := by
  have hfades := h.resolve (show Aim.target ≠ .writing by decide) t
  unfold Disk.isFolder test at hask ⊢
  generalize disk.resolve .target t = x at hfades hask
  generalize disk'.resolve .target t = x' at hfades ⊢
  cases hfades with
  | absent habsent =>
    cases habsent with
    | free folder name => exact ⟨_, rfl⟩
    | nothing => exact ⟨_, rfl⟩
  | found place hshell => exact ⟨_, rfl⟩
  | refused e => exact ⟨b, hask⟩

end Disk

end ActionSweep
