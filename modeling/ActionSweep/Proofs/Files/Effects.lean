/-
What changes of files leave in place. Each operation changes at most the entries to which its paths lead, and
where one of them is a folder it fails; so everything else that stood in the tree stands there afterwards.
-/
import ActionSweep.Proofs.Files.Writing

namespace ActionSweep

/-- Where a place is, or would be. -/
def Place.path : Place → List Text
  | .found place _ => place
  | .free folder name => folder ++ [name]

namespace Dir

/-- An entry still stands at its place: a file with its content, a link with its target, a folder as a folder. -/
def StillHas (d : Dir) (place : List Text) (e : Entry) : Prop := ∃ e', d.find? place = some e' ∧ e'.shell = e.shell

variable {d d' : Dir} {place : List Text} {e : Entry}

instance (d : Dir) (place : List Text) (e : Entry) : Decidable (d.StillHas place e) :=
  decidable_of_iff ((d.find? place).map Entry.shell = some e.shell) Option.map_eq_some_iff

theorem stillHas_self (h : d.find? place = some e) : d.StillHas place e := ⟨e, h, rfl⟩

theorem not_folderAt_of_none (h : d.find? place = none) : ¬ d.FolderAt place := by
  rintro ⟨inside, hinside⟩
  rw [h] at hinside
  cases hinside

theorem not_folderAt_of_leaf (h : d.find? place = some e) (hleaf : ∀ inside, e ≠ .folder inside) : ¬ d.FolderAt place := by
  rintro ⟨inside, hinside⟩
  rw [h] at hinside
  cases hinside
  exact hleaf inside rfl

theorem not_folderAt_of_file (h : ∀ e, d.find? place = some e → ∃ b, e = .file b) : ¬ d.FolderAt place := by
  rintro ⟨inside, hinside⟩
  obtain ⟨b, ⟨⟩⟩ := h _ hinside

/-- Nothing stands below a place that is no folder. -/
theorem find?_below_leaf (h : ¬ d.FolderAt place) {more : List Text} (hmore : more ≠ []) : d.find? (place ++ more) = none := by
  cases hfind : d.find? (place ++ more) with
  | none => rfl
  | some e =>
    obtain ⟨inside, hinside, -⟩ := find?_folder_of_append hmore hfind
    exact absurd ⟨inside, hinside⟩ h

/-- A tree becomes another one by changes at some places where no folder stands. -/
def ChangesAt (d d' : Dir) (P : List Text → Prop) : Prop :=
  ∃ places, SameBut places d d' ∧ ∀ p ∈ places, ¬ d.FolderAt p ∧ P p

/-- All entries stay in place but files and links where something is changed. -/
theorem ChangesAt.stillHas {P : List Text → Prop} (h : d.ChangesAt d' P) (he : d.find? place = some e) :
    d'.StillHas place e ∨ (∀ inside, e ≠ .folder inside) ∧ P place := by
  obtain ⟨places, hsame, hplaces⟩ := h
  by_cases hplace : place ∈ places
  · refine .inr ⟨?_, (hplaces place hplace).2⟩
    rintro inside rfl
    exact (hplaces place hplace).1 ⟨inside, he⟩
  · have hshell := hsame place fun p hp ⟨more, hmore⟩ => by
      subst hmore
      by_cases hnil : more = []
      · rw [hnil, List.append_nil] at hplace
        exact hplace hp
      · rw [find?_below_leaf (hplaces p hp).1 hnil] at he
        cases he
    rw [he, Option.map_some, Option.map_eq_some_iff] at hshell
    exact .inl hshell

theorem ChangesAt.folderAt {P : List Text → Prop} (h : d.ChangesAt d' P) (hplace : d.FolderAt place) : d'.FolderAt place := by
  obtain ⟨inside, hinside⟩ := hplace
  rcases h.stillHas hinside with ⟨e, he, hshell⟩ | ⟨hleaf, -⟩
  · obtain ⟨inside', rfl⟩ := Entry.shell_eq_folder.1 hshell
    exact ⟨inside', he⟩
  · exact absurd rfl (hleaf inside)

theorem changesAt_refl (d : Dir) (P : List Text → Prop) : d.ChangesAt d P :=
  ⟨[], fun _ _ => rfl, fun _ hp => absurd hp (List.not_mem_nil)⟩

theorem ChangesAt.of_sameBut {P : List Text → Prop} (h : SameBut [place] d d') (hleaf : ¬ d.FolderAt place)
    (hP : P place) : d.ChangesAt d' P := by
  refine ⟨[place], h, fun p hp => ?_⟩
  rw [List.mem_singleton.1 hp]
  exact ⟨hleaf, hP⟩

/-- What is put at a place stands there, unless no folder leads to the place. -/
theorem find?_putAt_self (e : Entry) : ∀ (place : List Text) (d : Dir),
    (d.putAt place e).find? place = some e ∨ (d.putAt place e).find? place = d.find? place
  | [], _ => .inr rfl
  | [n], d => .inl (by rw [putAt, find?_put, if_pos rfl, Entry.find?_nil])
  | n :: m :: place, d => by
    rw [putAt]
    · split
      · rename_i inside hn
        rw [find?_put, if_pos rfl, find?_cons, hn, Option.bind_some, Entry.find?_folder, Entry.find?_folder]
        exact find?_putAt_self e (m :: place) inside
      · exact .inr rfl
    · exact List.cons_ne_nil m place

/-- A file put where no folder stands makes no folder and no link. -/
theorem stillHas_of_putAt {b : Bytes} (hleaf : ¬ d.FolderAt place) {path : List Text}
    (h : (d.putAt place (.file b)).find? path = some e) : (∃ c, e = .file c) ∨ d.StillHas path e := by
  by_cases hpath : place <+: path
  · obtain ⟨more, rfl⟩ := hpath
    by_cases hmore : more = []
    · subst hmore
      rw [List.append_nil] at h ⊢
      rcases find?_putAt_self (.file b) place d with hput | hput
      · rw [hput] at h
        cases h
        exact .inl ⟨b, rfl⟩
      · exact .inr (stillHas_self (hput.symm.trans h))
    · obtain ⟨inside, hinside, -⟩ := find?_folder_of_append hmore h
      rcases find?_putAt_self (.file b) place d with hput | hput
      · rw [hput] at hinside
        cases hinside
      · exact absurd ⟨inside, hput.symm.trans hinside⟩ hleaf
  · have hshell := sameBut_putAt (.file b) place d path (by simpa using hpath)
    rw [h, Option.map_some, eq_comm, Option.map_eq_some_iff] at hshell
    exact .inr hshell

end Dir

namespace Disk

section Walks

variable {root root' : Dir} {jump jump' : List Text → List Text → Except FileProblem Place} {x : Place}

/-- What is found behind links is the entry itself, or the entry is a link. -/
theorem walk_entry_or_link {aim : Aim} (haim : aim ≠ .entry)
    (hjump : ∀ here parts, jump here parts = .ok x →
      jump' here parts = .ok x ∨ ∃ place t, jump' here parts = .ok (.found place (.link t))) :
    ∀ (parts here : List Text), walk root aim jump here parts = .ok x →
      walk root .entry jump' here parts = .ok x ∨ ∃ place t, walk root .entry jump' here parts = .ok (.found place (.link t))
  | [], here, h => .inl h
  | part :: parts, here, h => by
    rcases part_cases part with hp | rfl | hp
    · rw [walk_skip hp] at h ⊢
      exact walk_entry_or_link haim hjump parts here h
    · rw [walk_up] at h ⊢
      exact walk_entry_or_link haim hjump parts _ h
    · rw [walk_down hp (noSlash_of_walk hp h)] at h
      rw [walk_down hp (by rintro ⟨⟩)]
      split at h
      · cases h
      rename_i hlen
      rw [if_neg hlen]
      split at h
      · exact .inl h
      · exact walk_entry_or_link haim hjump parts _ h
      · exact .inl h
      · rename_i t _
        rw [if_neg (by simp [haim])] at h
        cases parts with
        | nil => exact .inr ⟨here ++ [part], t, rfl⟩
        | cons p parts => exact hjump _ _ h

/-- Where a path leads to no folder when it is to be written, it leads to none in a tree with no other folders and
links. -/
theorem walk_noFolder (hways : ∀ path e, root'.find? path = some e → (∃ c, e = .file c) ∨ root.StillHas path e)
    (hx : x.NoFolder)
    (hjump : ∀ here parts, jump here parts = .ok x → ∀ place d, jump' here parts ≠ .ok (.found place (.folder d))) :
    ∀ (parts here : List Text), walk root .writing jump here parts = .ok x →
      ∀ place d, walk root' .entry jump' here parts ≠ .ok (.found place (.folder d))
  | [], here, h, place, d => by
    intro h'
    simp only [walk] at h h'
    split at h'
    · rename_i e he
      cases h'
      rcases hways here _ he with ⟨c, ⟨⟩⟩ | ⟨f, hf, hfolder⟩
      obtain ⟨inside, rfl⟩ := Entry.shell_eq_folder.1 hfolder
      rw [hf] at h
      cases h
      exact hx here inside rfl
    · cases h'
  | part :: parts, here, h, place, d => by
    rcases part_cases part with hp | rfl | hp
    · rw [walk_skip hp] at h ⊢
      exact walk_noFolder hways hx hjump parts here h place d
    · rw [walk_up] at h ⊢
      exact walk_noFolder hways hx hjump parts _ h place d
    · rw [walk_down hp (noSlash_of_walk hp h)] at h
      rw [walk_down hp (by rintro ⟨⟩)]
      split at h
      · cases h
      rename_i hlen
      rw [if_neg hlen]
      split
      · split <;> rintro ⟨⟩
      · rename_i inside' hinside'
        -- the folder has stood in the tree before, so both walks go on below it
        rcases hways _ _ hinside' with ⟨c, ⟨⟩⟩ | ⟨f, hf, hfolder⟩
        obtain ⟨inside, rfl⟩ := Entry.shell_eq_folder.1 hfolder
        rw [hf] at h
        exact walk_noFolder hways hx hjump parts _ h place d
      · split <;> rintro ⟨⟩
      · rename_i t hlink
        rcases hways _ _ hlink with ⟨c, ⟨⟩⟩ | ⟨f, hf, hshell⟩
        rw [Entry.shell_eq_link.1 hshell] at hf
        rw [hf] at h
        dsimp only at h
        rw [if_neg (by simp)] at h
        split
        · rintro ⟨⟩
        · exact hjump _ _ h place d

end Walks

section Resolution

variable {root root' : Dir} {x : Place}

theorem resolveParts_entry_or_link {aim : Aim} (haim : aim ≠ .entry) : ∀ (n : Nat) {here parts : List Text},
    resolveParts root aim n here parts = .ok x → resolveParts root .entry n here parts = .ok x ∨
      ∃ place t, resolveParts root .entry n here parts = .ok (.found place (.link t))
  | 0, here, parts, h => walk_entry_or_link haim (by rintro _ _ ⟨⟩) parts here h
  | n + 1, here, parts, h => walk_entry_or_link haim (fun _ _ => resolveParts_entry_or_link haim n) parts here h

theorem resolveParts_noFolder (hways : ∀ path e, root'.find? path = some e → (∃ c, e = .file c) ∨ root.StillHas path e)
    (hx : x.NoFolder) : ∀ (n : Nat) {here parts : List Text}, resolveParts root .writing n here parts = .ok x →
      ∀ place d, resolveParts root' .entry n here parts ≠ .ok (.found place (.folder d))
  | 0, here, parts, h => walk_noFolder hways hx (by rintro _ _ ⟨⟩) parts here h
  | n + 1, here, parts, h => walk_noFolder hways hx (fun _ _ => resolveParts_noFolder hways hx n) parts here h

end Resolution

/-! ## Texts -/

section Texts

variable {disk disk' : Disk} {aim : Aim} {t : Text} {x : Place}

theorem resolve_ok : disk.resolve aim t = .ok x ↔
    ('\x00' ∉ t ∧ t ≠ [] ∧ (Utf8.encode t).length ≤ pathLimit) ∧
      resolveParts disk.root aim linkLimit (if ['/'].isPrefixOf t then [] else disk.workingFolder) (steps t) = .ok x := by
  unfold resolve
  by_cases hzero : '\x00' ∈ t
  · simp [hzero]
  rw [if_neg (by simpa using hzero)]
  by_cases hnil : t = []
  · simp [hnil, Except.mapError]
  rw [if_neg (by simpa using hnil)]
  by_cases hlong : pathLimit < (Utf8.encode t).length
  · simp [hlong, Nat.not_le_of_lt hlong, Except.mapError]
  rw [if_neg hlong, Outcome.mapError_ok]
  exact (and_iff_right ⟨hzero, hnil, Nat.le_of_not_lt hlong⟩).symm

theorem resolve_stands (h : disk.resolve aim t = .ok x) : x.StandsIn disk.root := resolveParts_stands (resolve_ok.1 h).2

theorem resolve_entry_or_link (haim : aim ≠ .entry) (h : disk.resolve aim t = .ok x) :
    disk.resolve .entry t = .ok x ∨ ∃ place u, disk.resolve .entry t = .ok (.found place (.link u)) := by
  obtain ⟨hask, hparts⟩ := resolve_ok.1 h
  rcases resolveParts_entry_or_link haim linkLimit hparts with hentry | ⟨place, u, hlink⟩
  · exact .inl (resolve_ok.2 ⟨hask, hentry⟩)
  · exact .inr ⟨place, u, resolve_ok.2 ⟨hask, hlink⟩⟩

/-! ## Operations -/

/-- A text leads to a place, whether something stands there or not. -/
def LeadsTo (disk : Disk) (aim : Aim) (t : Text) (place : List Text) : Prop :=
  ∃ x, disk.resolve aim t = .ok x ∧ x.path = place

instance (disk : Disk) (aim : Aim) (t : Text) (place : List Text) : Decidable (disk.LeadsTo aim t place) :=
  match h : disk.resolve aim t with
  | .ok x => decidable_of_iff (x.path = place) ⟨fun hx => ⟨x, h, hx⟩, fun ⟨_, hy, hplace⟩ => by
    rw [h] at hy
    cases hy
    exact hplace⟩
  | .error _ => isFalse fun ⟨_, hx, _⟩ => by
    rw [h] at hx
    cases hx

/-- A folder is made where nothing stood. -/
theorem makeFolder_ok (h : disk.makeFolder t = .ok disk') : ∃ place, disk.root.find? place = none ∧
    disk' = disk.setRoot (disk.root.putAt place (.folder .empty)) := by
  unfold makeFolder at h
  obtain ⟨x, hx, h⟩ := Outcome.bind_ok.1 h
  cases x with
  | found p e => cases h
  | free folder name =>
    cases h
    exact ⟨folder ++ [name], resolve_stands hx, rfl⟩

theorem makeFolder_changes (h : disk.makeFolder t = .ok disk') :
    disk.root.ChangesAt disk'.root fun place => disk.root.find? place = none := by
  obtain ⟨place, hfree, rfl⟩ := makeFolder_ok h
  exact .of_sameBut (Dir.sameBut_putAt _ _ _) (Dir.not_folderAt_of_none hfree) hfree

/-- A file is written where its path leads, to a file or to a name that is free. -/
theorem write_ok {bytes : Bytes} (h : disk.write t bytes = .ok disk') : ∃ x, disk.resolve .writing t = .ok x ∧
    (∀ e, disk.root.find? x.path = some e → ∃ b, e = .file b) ∧ x.NoFolder ∧
      disk' = disk.setRoot (disk.root.putAt x.path (.file bytes)) := by
  unfold Disk.write at h
  obtain ⟨x, hx, h⟩ := Outcome.bind_ok.1 h
  refine ⟨x, hx, ?_⟩
  have hstands := resolve_stands hx
  cases x with
  | found p e =>
    cases e with
    | file b =>
      cases h
      refine ⟨fun e he => ⟨b, ?_⟩, by rintro _ _ ⟨⟩, rfl⟩
      exact Option.some.inj (he.symm.trans hstands)
    | folder d => cases h
    | link u => cases h
  | free folder name =>
    cases h
    refine ⟨fun e he => ?_, by rintro _ _ ⟨⟩, rfl⟩
    cases he.symm.trans hstands

theorem write_changes {bytes : Bytes} (h : disk.write t bytes = .ok disk') :
    disk.root.ChangesAt disk'.root (disk.LeadsTo .writing t) := by
  obtain ⟨x, hx, hfile, -, rfl⟩ := write_ok h
  exact .of_sameBut (Dir.sameBut_putAt _ _ _) (Dir.not_folderAt_of_file hfile) ⟨x, hx, rfl⟩

/-- After a file was written its path leads to no folder. -/
theorem write_noFolder {bytes : Bytes} (h : disk.write t bytes = .ok disk') (p : List Text) (inside : Dir) :
    disk'.resolve .entry t ≠ .ok (.found p (.folder inside)) := by
  obtain ⟨x, hx, hfile, hno, rfl⟩ := write_ok h
  intro hfolder
  exact resolveParts_noFolder (fun _ _ => Dir.stillHas_of_putAt (Dir.not_folderAt_of_file hfile)) hno linkLimit (resolve_ok.1 hx).2 p inside
    (resolve_ok.1 hfolder).2

theorem removeFile_ok (h : disk.removeFile t = .ok disk') : ∃ place e, disk.resolve .entry t = .ok (.found place e) ∧
    (∀ inside, e ≠ .folder inside) ∧ disk' = disk.setRoot (disk.root.eraseAt place) := by
  unfold removeFile at h
  obtain ⟨x, hx, h⟩ := Outcome.bind_ok.1 h
  cases x with
  | free folder name => cases h
  | found p e =>
    cases e with
    | folder d => cases h
    | file b | link u =>
      cases h
      exact ⟨p, _, hx, by rintro _ ⟨⟩, rfl⟩

theorem removeFile_changes (h : disk.removeFile t = .ok disk') : disk.root.ChangesAt disk'.root (disk.LeadsTo .entry t) := by
  obtain ⟨place, e, hx, hleaf, rfl⟩ := removeFile_ok h
  exact .of_sameBut (Dir.sameBut_eraseAt _ _) (Dir.not_folderAt_of_leaf (resolve_stands hx) hleaf) ⟨_, hx, rfl⟩

/-- What is moved goes from its place to one where no folder stands, or stays where it is. -/
theorem moveEntry_ok {p : List Text} {e : Entry} {goal : Place} (hp : disk.root.find? p = some e)
    (hgoal : goal.StandsIn disk.root) (h : disk.moveEntry p e goal = .ok disk') :
    disk' = disk ∧ p = goal.path ∨ ¬ disk.root.FolderAt goal.path ∧ p ≠ goal.path ∧
      disk' = disk.setRoot ((disk.root.eraseAt p).putAt goal.path e) := by
  cases goal with
  | free folder name =>
    cases h
    refine .inr ⟨Dir.not_folderAt_of_none hgoal, ?_, rfl⟩
    rintro rfl
    cases hp.symm.trans hgoal
  | found target there =>
    cases e with
    | folder inside => cases there <;> cases h
    | file b | link u =>
      cases there with
      | folder inside => cases h
      | file c | link v =>
        simp only [moveEntry] at h
        split at h
        · rename_i hp
          cases h
          exact .inl ⟨rfl, hp⟩
        · rename_i hp
          cases h
          exact .inr ⟨Dir.not_folderAt_of_leaf hgoal (by rintro _ ⟨⟩), hp, rfl⟩

/-- What is moved is found, and both paths end with names. -/
theorem move_ok {source target : Text} (h : disk.move source target = .ok disk') : ∃ p e goal,
    disk.resolve .entry source = .ok (.found p e) ∧ disk.resolve .entry target = .ok goal ∧
      nameless? source = none ∧ nameless? target = none ∧ disk.moveEntry p e goal = .ok disk' := by
  unfold Disk.move at h
  dsimp only at h
  split at h
  · cases h
  · cases h
  · cases h
  · cases h
  · rename_i start goal hstart hgoal
    split at h
    · cases h
    · rename_i hnamed
      rw [Bool.or_eq_true, not_or, Option.not_isSome_iff_eq_none, Option.not_isSome_iff_eq_none] at hnamed
      split at h
      · cases h
      · rename_i p e
        split at h
        · cases h
          exact ⟨p, e, goal, hstart, hgoal, hnamed.1, hnamed.2, ‹_›⟩
        · cases h

theorem move_changes {source target : Text} (h : disk.move source target = .ok disk')
    (hsource : ∀ p inside, disk.resolve .entry source ≠ .ok (.found p (.folder inside))) :
    disk.root.ChangesAt disk'.root fun place => disk.LeadsTo .entry source place ∨ disk.LeadsTo .entry target place := by
  obtain ⟨p, e, goal, hstart, hgoal, -, -, hmove⟩ := move_ok h
  have hp : disk.root.find? p = some e := resolve_stands hstart
  have hleaf : ∀ inside, e ≠ .folder inside := by
    rintro inside rfl
    exact hsource p inside hstart
  rcases moveEntry_ok hp (resolve_stands hgoal) hmove with ⟨rfl, -⟩ | ⟨hno, -, rfl⟩
  · exact Dir.changesAt_refl _ _
  · refine ⟨_, (Dir.sameBut_eraseAt p disk.root).trans (Dir.sameBut_putAt e goal.path _), ?_⟩
    simpa using ⟨⟨Dir.not_folderAt_of_leaf hp hleaf, .inl ⟨_, hstart, rfl⟩⟩, hno, .inr ⟨goal, hgoal, rfl⟩⟩

theorem write_around {bytes : Bytes} (h : disk.write t bytes = .ok disk') : disk'.around = disk.around := by
  obtain ⟨x, -, -, -, rfl⟩ := write_ok h
  rfl

theorem move_around {source target : Text} (h : disk.move source target = .ok disk') : disk'.around = disk.around := by
  obtain ⟨p, e, goal, hstart, hgoal, -, -, hmove⟩ := move_ok h
  rcases moveEntry_ok (resolve_stands hstart) (resolve_stands hgoal) hmove with ⟨rfl, -⟩ | ⟨-, -, rfl⟩
  · rfl
  · rfl

/-! ## Soundness -/

/-- The working folder is there, and all entries stand in order. -/
structure Sound (disk : Disk) : Prop where
  grounded : disk.Grounded
  ordered : disk.root.Ordered

theorem Sound.makeFolder (hdisk : disk.Sound) (h : disk.makeFolder t = .ok disk') : disk'.Sound := by
  have hchanges := makeFolder_changes h
  obtain ⟨place, -, rfl⟩ := makeFolder_ok h
  refine ⟨hchanges.folderAt hdisk.grounded, hdisk.ordered.putAt ?_⟩
  rintro _ ⟨⟩
  trivial

theorem Sound.write (hdisk : disk.Sound) {bytes : Bytes} (h : disk.write t bytes = .ok disk') : disk'.Sound := by
  have hchanges := write_changes h
  obtain ⟨x, -, -, -, rfl⟩ := write_ok h
  exact ⟨hchanges.folderAt hdisk.grounded, hdisk.ordered.putAt (by rintro _ ⟨⟩)⟩

theorem Sound.removeFile (hdisk : disk.Sound) (h : disk.removeFile t = .ok disk') : disk'.Sound := by
  have hchanges := removeFile_changes h
  obtain ⟨place, e, -, -, rfl⟩ := removeFile_ok h
  exact ⟨hchanges.folderAt hdisk.grounded, hdisk.ordered.eraseAt⟩

theorem Sound.move (hdisk : disk.Sound) {source target : Text} (h : disk.move source target = .ok disk')
    (hsource : ∀ p inside, disk.resolve .entry source ≠ .ok (.found p (.folder inside))) : disk'.Sound := by
  have hchanges := move_changes h hsource
  obtain ⟨p, e, goal, hstart, hgoal, -, -, hmove⟩ := move_ok h
  rcases moveEntry_ok (resolve_stands hstart) (resolve_stands hgoal) hmove with ⟨rfl, -⟩ | ⟨-, -, rfl⟩
  · exact hdisk
  · exact ⟨hchanges.folderAt hdisk.grounded, hdisk.ordered.eraseAt.putAt (hdisk.ordered.find? (resolve_stands hstart))⟩

end Texts

end Disk

theorem FileWork.change_ok {operation : Disk → Except Fault Disk} {disk disk' : Disk} (h : change operation disk = .ok () disk') :
    operation disk = .ok disk' := by
  unfold change at h
  split at h
  · rename_i hop
    cases h
    exact hop
  · cases h

end ActionSweep
