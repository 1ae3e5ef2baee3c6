/-
Trees that differ in the contents of files alone. Every path leads to the same place in both, so they give the same answers
to all questions but those for contents. A file is replaced through a file beside it in one step: if there was nothing
beside it before, all that changes is that file; and the tree is alike before and after, unless a link stood in its place.
-/
import ActionSweep.Proofs.Files.Clearing

namespace ActionSweep

/-- An entry without what is in it. -/
def Entry.kind : Entry → Entry
  | .file _ => .file []
  | .link t => .link t
  | .folder _ => .folder .empty

theorem Entry.kind_eq_folder {e : Entry} : e.kind = .folder .empty ↔ ∃ d, e = .folder d := by
  cases e <;> simp [kind]

theorem Entry.kind_eq_file {e : Entry} : e.kind = .file [] ↔ ∃ b, e = .file b := by
  cases e <;> simp [kind]

theorem Entry.kind_eq_link {e : Entry} {t : Text} : e.kind = .link t ↔ e = .link t := by
  cases e <;> simp [kind]

theorem Entry.kind_shell (e : Entry) : e.shell.kind = e.kind := by
  cases e <;> rfl

def Place.kind : Place → Place
  | .found place e => .found place e.kind
  | .free folder name => .free folder name

namespace Dir

variable {d d' : Dir} {path place : List Text} {e : Entry}

/-- Two trees have the same folders, the same links, and files at the same places. -/
def Alike (d d' : Dir) : Prop := ∀ path, (d'.find? path).map Entry.kind = (d.find? path).map Entry.kind

theorem Alike.find? (h : d.Alike d') (he : d.find? path = some e) : ∃ e', d'.find? path = some e' ∧ e'.kind = e.kind := by
  have hpath := h path
  rwa [he, Option.map_some, Option.map_eq_some_iff] at hpath

theorem Alike.none (h : d.Alike d') (hnone : d.find? path = none) : d'.find? path = none := by
  have hpath := h path
  rwa [hnone, Option.map_none, Option.map_eq_none_iff] at hpath

/-- All that is different in two trees is what stands at one place. -/
def OnlyAt (place : List Text) (d d' : Dir) : Prop :=
  ∀ path, path ≠ place → (d'.find? path).map Entry.shell = (d.find? path).map Entry.shell

/-- What has no folder at the only place where something is written has nothing below it either. -/
theorem SameBut.onlyAt (h : SameBut [place] d d') (hbefore : ¬ d.FolderAt place) (hafter : ¬ d'.FolderAt place) :
    OnlyAt place d d' := by
  intro path hne
  by_cases hpath : place <+: path
  · obtain ⟨more, rfl⟩ := hpath
    have hmore : more ≠ [] := fun h => hne (by rw [h, List.append_nil])
    rw [find?_below_leaf hbefore hmore, find?_below_leaf hafter hmore]
  · exact h path fun other hother => by rwa [List.mem_singleton.1 hother]

theorem OnlyAt.sameBut (h : OnlyAt place d d') : SameBut [place] d d' := by
  intro path hpath
  refine h path ?_
  rintro rfl
  exact hpath path (List.mem_singleton_self path) (List.prefix_refl path)

theorem OnlyAt.folderAt (h : OnlyAt place d d') (hleaf : ¬ d.FolderAt place) (hpath : d.FolderAt path) : d'.FolderAt path := by
  obtain ⟨inside, hinside⟩ := hpath
  have hne : path ≠ place := fun he => hleaf ⟨inside, he ▸ hinside⟩
  have hshell := h path hne
  rw [hinside, Option.map_some, Option.map_eq_some_iff] at hshell
  obtain ⟨e, he, hshell⟩ := hshell
  obtain ⟨inside', rfl⟩ := Entry.shell_eq_folder.1 hshell
  exact ⟨inside', he⟩

/-- What is put where there was nothing and taken away again leaves no trace. -/
theorem Ordered.put_erased (hd : d.Ordered) (hne : place ≠ []) (hnone : d.find? place = none) (e : Entry) (he : e.Ordered) :
    ∀ path, (((d.putAt place e).eraseAt place).find? path).map Entry.shell = (d.find? path).map Entry.shell := by
  intro path
  by_cases hpath : place <+: path
  · rw [(Ordered.putAt he hd).find?_eraseAt hne hpath, find?_none_below hnone hpath]
  · exact (sameBut_putAt e place d).trans (sameBut_eraseAt place _) path (by simpa using hpath)

/-- A file is put beside an entry, taken away again, and put in place of the entry. -/
theorem Ordered.exchanged (hd : d.Ordered) {folder : List Text} {inside : Dir} {n k : Text}
    (hfolder : d.find? folder = some (.folder inside)) (hk : inside.get? k = none) (hn : inside.get? n = some e)
    (hleaf : ∀ inner, e ≠ .folder inner) (hne : k ≠ n) (b : Bytes) :
    let d' := ((d.putAt (folder ++ [k]) (.file b)).eraseAt (folder ++ [k])).putAt (folder ++ [n]) (.file b)
    ∃ inside', d'.find? folder = some (.folder inside') ∧ inside'.get? n = some (.file b) ∧ inside'.get? k = none ∧
      d.OnlyAt (folder ++ [n]) d' ∧ d'.Ordered := by
  have hfile : (Entry.file b).Ordered := by rintro _ ⟨⟩
  have hput : (d.putAt (folder ++ [k]) (.file b)).Ordered := Ordered.putAt hfile hd
  have hback := hd.put_erased (by simp) ((find?_concat folder k hfolder).trans hk) (.file b) hfile
  have hgone := hput.find?_eraseAt (by simp) (List.prefix_refl (folder ++ [k]))
  have hordered : ((d.putAt (folder ++ [k]) (.file b)).eraseAt (folder ++ [k])).Ordered := hput.eraseAt
  -- what is done beside leaves no trace, so only the result of that matters from here on
  generalize (d.putAt (folder ++ [k]) (.file b)).eraseAt (folder ++ [k]) = moment at hback hgone hordered
  obtain ⟨inside', hinside'⟩ : moment.FolderAt folder := by
    have hshell := hback folder
    rw [hfolder, Option.map_some, Option.map_eq_some_iff] at hshell
    obtain ⟨f, hf, hshell⟩ := hshell
    obtain ⟨inner, rfl⟩ := Entry.shell_eq_folder.1 hshell
    exact ⟨inner, hf⟩
  have hafter := find?_putAt n (.file b) hinside'
  have hnow : (inside'.put n (.file b)).get? n = some (.file b) := by rw [get?_put, if_pos rfl]
  have hbefore : ¬ moment.FolderAt (folder ++ [n]) := by
    rintro ⟨inner, hinner⟩
    have hshell := hback (folder ++ [n])
    rw [hinner, find?_concat folder n hfolder, hn] at hshell
    obtain ⟨inner', rfl⟩ := Entry.shell_eq_folder.1 (Option.some.inj hshell).symm
    exact hleaf inner' rfl
  refine ⟨inside'.put n (.file b), hafter, hnow, ?_, fun path hpath => ?_, Ordered.putAt hfile hordered⟩
  · rw [get?_put, if_neg hne.symm, ← find?_concat folder k hinside', hgone]
  · have hleaf' : ¬ (moment.putAt (folder ++ [n]) (.file b)).FolderAt (folder ++ [n]) :=
      not_folderAt_of_leaf ((find?_concat folder n hafter).trans hnow) nofun
    exact ((sameBut_putAt _ _ _).onlyAt hbefore hleaf' path hpath).trans (hback path)

/-- Where a file takes the place of a file the trees are alike. -/
theorem OnlyAt.alike (h : OnlyAt place d d') {b b' : Bytes} (hbefore : d.find? place = some (.file b))
    (hafter : d'.find? place = some (.file b')) : d.Alike d' := by
  intro path
  by_cases hpath : path = place
  · rw [hpath, hbefore, hafter]
    rfl
  · have hshell := congrArg (Option.map Entry.kind) (h path hpath)
    have hkind : Entry.kind ∘ Entry.shell = Entry.kind := funext Entry.kind_shell
    rwa [Option.map_map, Option.map_map, hkind] at hshell

end Dir

namespace Disk

/-! ## Where paths lead in trees that are alike -/

section Walks

variable {root root' : Dir} {aim : Aim} {jump jump' : List Text → List Text → Except FileProblem Place}

theorem walk_alike (haim : aim ≠ .writing) (h : root.Alike root')
    (hjump : ∀ here parts, (jump' here parts).map Place.kind = (jump here parts).map Place.kind) :
    ∀ parts here : List Text,
      (walk root' aim jump' here parts).map Place.kind = (walk root aim jump here parts).map Place.kind
  | [], here => by
    simp only [walk]
    cases hfind : root.find? here with
    | none => rw [h.none hfind]
    | some e =>
      obtain ⟨e', he', hkind⟩ := h.find? hfind
      rw [he']
      simp [Except.map, Place.kind, hkind]
  | part :: parts, here => by
    rcases part_cases part with hp | rfl | hp
    · rw [walk_skip hp, walk_skip hp]
      exact walk_alike haim h hjump parts here
    · rw [walk_up, walk_up]
      exact walk_alike haim h hjump parts _
    · rw [walk_down hp (fun h => absurd h haim), walk_down hp (fun h => absurd h haim)]
      split
      · rfl
      cases hfind : root.find? (here ++ [part]) with
      | none => rw [h.none hfind]
      | some e =>
        obtain ⟨e', he', hkind⟩ := h.find? hfind
        rw [he']
        cases e with
        | file b =>
          obtain ⟨b', rfl⟩ := Entry.kind_eq_file.1 hkind
          dsimp only
          split <;> rfl
        | folder d =>
          obtain ⟨d', rfl⟩ := Entry.kind_eq_folder.1 hkind
          exact walk_alike haim h hjump parts _
        | link t =>
          rw [Entry.kind_eq_link.1 hkind]
          dsimp only
          split
          · rfl
          · exact hjump _ _

theorem resolveParts_alike (haim : aim ≠ .writing) (h : root.Alike root') : ∀ (n : Nat) (here parts : List Text),
    (resolveParts root' aim n here parts).map Place.kind = (resolveParts root aim n here parts).map Place.kind
  | 0, here, parts => walk_alike haim h (fun _ _ => rfl) parts here
  | n + 1, here, parts => walk_alike haim h (resolveParts_alike haim h n) parts here

end Walks

variable {disk disk' : Disk} {root' : Dir} {t : Text}

theorem map_mapError {ε ε' α β : Type} (f : α → β) (g : ε → ε') (x : Except ε α) :
    (x.mapError g).map f = (x.map f).mapError g := by
  cases x <;> rfl

theorem resolve_alike {aim : Aim} (haim : aim ≠ .writing) (h : disk.root.Alike root') (t : Text) :
    ((disk.setRoot root').resolve aim t).map Place.kind = (disk.resolve aim t).map Place.kind := by
  unfold resolve
  split
  · rfl
  · rw [map_mapError, map_mapError]
    split
    · rfl
    · split
      · rfl
      · exact congrArg _ (resolveParts_alike haim h ..)

/-- Whether something is there does not depend on what is in it. -/
theorem present_alike (h : disk.root.Alike root') (t : Text) : (disk.setRoot root').present t = disk.present t := by
  have hresolve := resolve_alike (show Aim.target ≠ .writing by decide) h t
  unfold present test
  cases hx : disk.resolve .target t with
  | error f =>
    rw [hx] at hresolve
    rw [(Outcome.map_error (x := (disk.setRoot root').resolve .target t)).1 hresolve]
  | ok x =>
    rw [hx] at hresolve
    obtain ⟨x', hx', hkind⟩ := Outcome.map_ok.1 hresolve
    rw [hx']
    cases x <;> cases x' <;> first | rfl | cases hkind

/-! ## Writing through links -/

section Finds

variable {root : Dir} {place : List Text} {b : Bytes}

/-- Behind a path to a file there is no slash. -/
theorem Finds.noSlash {n : Nat} {here parts : List Text} (hhere : root.FolderAt here)
    (h : Finds root place (.file b) n here parts) : ∀ front, parts ≠ front ++ [[]] := by
  induction h with
  | here h =>
    obtain ⟨inside, hinside⟩ := hhere
    rw [hinside] at h
    cases h
  | @stay n here parts part hpart h ih =>
    rintro (_ | ⟨m, front⟩) heq
    · obtain ⟨-, rfl⟩ := List.cons.inj heq
      obtain ⟨inside, hinside⟩ := hhere
      have hfind := resolveParts_found (resolveParts_of_finds h)
      cases h
      rw [hinside] at hfind
      cases hfind
    · exact ih hhere front (List.cons.inj heq).2
  | up h ih =>
    rintro (_ | ⟨m, front⟩) heq
    · cases heq
    · exact ih hhere.dropLast front (List.cons.inj heq).2
  | down hpart hfind h ih =>
    rintro (_ | ⟨m, front⟩) heq
    · exact hpart.down.1 (List.cons.inj heq).1
    · exact ih ⟨_, hfind⟩ front (List.cons.inj heq).2
  | file hpart _ _ _ =>
    rintro (_ | ⟨m, front⟩) heq
    · exact hpart.down.1 (List.cons.inj heq).1
    · simp at heq
  | @link n here parts part t hpart hfind h ih =>
    rintro (_ | ⟨m, front⟩) heq
    · exact hpart.down.1 (List.cons.inj heq).1
    · refine ih (hhere.start _) (steps t ++ front) ?_
      rw [(List.cons.inj heq).2, List.append_assoc]
      rfl

/-- A path that leads to a file leads there for writing. -/
theorem Finds.writing {n : Nat} {here parts : List Text} (hhere : root.FolderAt here)
    (h : Finds root place (.file b) n here parts) :
    resolveParts root .writing n here parts = .ok (.found place (.file b)) := by
  have hslash := h.noSlash hhere
  induction h with
  | here h => simp only [resolveParts_follow, walk, h]
  | stay hpart h ih =>
    rw [resolveParts_follow, walk_skip hpart, ← resolveParts_follow, ih hhere (h.noSlash hhere)]
  | up h ih =>
    rw [resolveParts_follow, walk_up, ← resolveParts_follow, ih hhere.dropLast (h.noSlash hhere.dropLast)]
  | @down n here parts part inside hpart hfind h ih =>
    have hne : parts ≠ [[]] := fun heq => hslash [part] (by rw [heq]; rfl)
    rw [resolveParts_follow, walk_down hpart.down (fun _ => hne), if_neg (Nat.not_lt.2 hpart.short), hfind]
    have hrun := ih ⟨_, hfind⟩ (h.noSlash ⟨_, hfind⟩)
    rwa [resolveParts_follow] at hrun
  | file hpart hplace he hfind =>
    subst hplace
    rw [resolveParts_follow, walk_down hpart.down (fun _ => by simp), if_neg (Nat.not_lt.2 hpart.short), hfind]
    rfl
  | @link n here parts part t hpart hfind h ih =>
    have hne : parts ≠ [[]] := fun heq => hslash [part] (by rw [heq]; rfl)
    rw [resolveParts_follow, walk_down hpart.down (fun _ => hne), if_neg (Nat.not_lt.2 hpart.short), hfind]
    dsimp only
    rw [if_neg (by simp)]
    exact ih (hhere.start _) (h.noSlash (hhere.start _))

end Finds

theorem resolve_writing (hdisk : disk.Grounded) {place : List Text} {b : Bytes}
    (h : disk.resolve .target t = .ok (.found place (.file b))) : disk.resolve .writing t = .ok (.found place (.file b)) := by
  obtain ⟨hask, hparts⟩ := resolve_ok.1 h
  exact resolve_ok.2 ⟨hask, (finds_of_resolveParts hparts).writing (Dir.FolderAt.start hdisk _)⟩

/-! ## Replacing a file -/

/-- Nothing stands at the path through which a file is replaced, unless the file itself has that path. -/
def BesideFree (disk : Disk) (path beside : Path) : Prop :=
  beside ≠ path → ∃ folder name, disk.resolve .entry beside.text = .ok (.free folder name)

/-- All that changed is the file at a path: it has the bytes, at a place where it stood before or a link to it did. -/
structure Replaced (disk disk' : Disk) (path : Text) (bytes : Bytes) (place : List Text) : Prop where
  disk_eq : disk' = disk.setRoot disk'.root
  stands : disk'.resolve .target path = .ok (.found place (.file bytes))
  only : disk.root.OnlyAt place disk'.root
  stood : ∃ e, (disk.resolve .entry path = .ok (.found place e) ∨ disk.resolve .target path = .ok (.found place e)) ∧
    ∀ inside, e ≠ .folder inside

variable {path beside : Path} {bytes : Bytes} {place : List Text}

theorem Replaced.around_eq (h : disk.Replaced disk' t bytes place) : disk'.around = disk.around := by
  rw [h.disk_eq]
  rfl

theorem Replaced.folderAt (h : disk.Replaced disk' t bytes place) {p : List Text} (hp : disk.root.FolderAt p) :
    disk'.root.FolderAt p := by
  obtain ⟨e, hx, hleaf⟩ := h.stood
  have hfind : disk.root.find? place = some e := hx.elim resolve_stands resolve_stands
  exact h.only.folderAt (Dir.not_folderAt_of_leaf hfind hleaf) hp

theorem Replaced.grounded (h : disk.Replaced disk' t bytes place) (hdisk : disk.Grounded) : disk'.Grounded := by
  have hhere := h.folderAt hdisk
  rw [h.disk_eq]
  exact hhere

/-- The tree is alike before and after, if the path is that of the file itself. -/
theorem Replaced.alike (h : disk.Replaced disk' t bytes place) {p : List Text} {b : Bytes}
    (hfile : disk.resolve .entry t = .ok (.found p (.file b))) : disk.root.Alike disk'.root := by
  obtain ⟨e, hx, -⟩ := h.stood
  have hboth : disk.resolve .target t = .ok (.found p (.file b)) := by
    obtain ⟨hask, hparts⟩ := resolve_ok.1 hfile
    exact resolve_ok.2 ⟨hask, resolveParts_entry hparts⟩
  obtain ⟨rfl, rfl⟩ : p = place ∧ Entry.file b = e := by
    rcases hx with hx | hx
    · simpa using hfile.symm.trans hx
    · simpa using hboth.symm.trans hx
  exact h.only.alike (resolve_stands hfile) (resolve_stands h.stands)

/-- What is written at the path of a file is that file, behind links. -/
theorem write_replaces (hdisk : disk.Grounded) {b : Bytes} (hx : disk.resolve .target t = .ok (.found place (.file b)))
    (bytes : Bytes) : disk.write t bytes = .ok (disk.setRoot (disk.root.putAt place (.file bytes))) ∧
      disk.Replaced (disk.setRoot (disk.root.putAt place (.file bytes))) t bytes place := by
  have hwriting := resolve_writing hdisk hx
  have hwrite : disk.write t bytes = .ok (disk.setRoot (disk.root.putAt place (.file bytes))) := by
    unfold write
    rw [hwriting]
    rfl
  have hfind := resolve_stands hx
  have hstands := write_stands hdisk hwriting hwrite
  refine ⟨hwrite, rfl, hstands, ?_, _, .inr hx, nofun⟩
  exact (Dir.sameBut_putAt _ _ _).onlyAt (Dir.not_folderAt_of_leaf hfind nofun)
    (Dir.not_folderAt_of_leaf (resolve_stands hstands) nofun)

/-- A file that is moved to its own path stays. -/
theorem move_self (hp : path.Normal) {front : List Text} {n : Text} (hname : path = ⟨path.anchor, front ++ [n]⟩)
    (hup : n ≠ ['.', '.']) {b : Bytes} (hx : disk.resolve .target path.text = .ok (.found place (.file b))) :
    disk.move path.text path.text = .ok disk := by
  have hnamed : nameless? path.text = none := by
    rw [hname] at hp ⊢
    rw [nameless?_concat hp, if_neg hup]
  obtain ⟨p, e, hentry, hleaf⟩ : ∃ p e, disk.resolve .entry path.text = .ok (.found p e) ∧ ∀ inside, e ≠ .folder inside := by
    rcases resolve_entry_or_link (by decide) hx with h | ⟨p, t, h⟩
    · exact ⟨_, _, h, nofun⟩
    · exact ⟨_, _, h, nofun⟩
  have hmove : disk.moveEntry p e (.found p e) = .ok disk := by
    cases e with
    | folder inside => exact absurd rfl (hleaf inside)
    | file b | link t => exact if_pos rfl
  unfold move
  rw [hentry, hnamed]
  simp only [Option.isSome_none, Bool.or_self, Bool.false_eq_true, if_false, hmove]

section Names

variable {a : Anchor} {front folder : List Text} {name k : Text} {d : Dir}

/-- A file is written beside another one, where there was nothing, and moved in place of that one. -/
theorem replaceFile_free (hdisk : disk.Sound) (hname : Askable a front name) (hbeside : Askable a front k) (hne : k ≠ name)
    (hfolder : disk.LeadsToFolder ⟨a, front⟩ folder d) {b : Bytes}
    (hx : disk.resolve .target (Path.mk a (front ++ [name])).text = .ok (.found place (.file b)))
    (hfree : d.get? k = none) (t : Text) :
    ∃ disk', FileWork.replaceFile ⟨a, front ++ [k]⟩ ⟨a, front ++ [name]⟩ t disk = .ok () disk' ∧
      disk.Replaced disk' (Path.mk a (front ++ [name])).text (Utf8.encode t) (folder ++ [name]) ∧
      disk'.resolve .entry (Path.mk a (front ++ [k])).text = .ok (.free folder k) ∧ disk'.root.Ordered := by
  obtain ⟨e, he, hleaf⟩ : ∃ e, d.get? name = some e ∧ ∀ inside, e ≠ .folder inside := by
    rcases hname.finds hfolder hx with h | ⟨u, m, h, -⟩
    · exact ⟨_, h, nofun⟩
    · exact ⟨_, h, nofun⟩
  have hremovable := hname.removable hfolder hx nofun
  -- the file beside is written
  have hwrite := hbeside.write hfolder (by rw [hfree]; nofun) (Utf8.encode t)
  have hout : Outlasts disk.root (disk.root.putAt (folder ++ [k]) (.file (Utf8.encode t))) :=
    outlasts_of_sameBut (Dir.sameBut_putAt _ (folder ++ [k]) disk.root) fun p hp f hf => by
      rw [List.mem_singleton.1 hp, Dir.find?_concat folder k hfolder.find?, hfree] at hf
      cases hf
  have hbetween := hfolder.outlasts hdisk.grounded hout (Dir.find?_putAt k (.file (Utf8.encode t)) hfolder.find?)
  -- and moved
  have hmove := hbeside.move hname hbetween (by rw [Dir.get?_put, if_pos rfl]) fun inside hinside => by
    rw [Dir.get?_put, if_neg hne, he] at hinside
    exact hleaf inside (Option.some.inj hinside)
  rw [if_neg hne] at hmove
  obtain ⟨d', hd', hnow, hgone, honly, hordered⟩ :=
    hdisk.ordered.exchanged hfolder.find? hfree he hleaf hne (Utf8.encode t)
  have hafter := hfolder.outlasts hdisk.grounded
    (outlasts_of_sameBut honly.sameBut (by simpa using hremovable)) hd'
  have hentry := hname.resolve hfolder (.inl rfl)
  have hstands : Disk.resolve _ .target _ = _ := hname.resolve hafter (.inr (by rw [hnow]; nofun))
  have hbeside' := hbeside.resolve hafter (.inl rfl)
  rw [he] at hentry
  rw [hnow] at hstands
  rw [hgone] at hbeside'
  exact ⟨_, replaceFile_of_steps hwrite hmove, ⟨rfl, hstands, honly, e, .inl hentry, hleaf⟩, hbeside', hordered⟩

end Names

/-- A file is replaced, and all that changes is that file; so it can be replaced again. -/
theorem replaceFile_replaces (hdisk : disk.Sound) (hpath : path.Normal) {extension : Text} (hslash : '/' ∉ extension)
    (hlong : 3 ≤ extension.length) (hbeside : path.withExtension? extension = some beside) {b : Bytes}
    (hx : disk.resolve .target path.text = .ok (.found place (.file b))) (hfree : disk.BesideFree path beside) (t : Text) :
    ∃ disk' spot, FileWork.replaceFile beside path t disk = .ok () disk' ∧
      disk.Replaced disk' path.text (Utf8.encode t) spot ∧ disk'.BesideFree path beside ∧ disk'.Sound := by
  obtain ⟨front, n, k, hp, hk, hnormal, hup⟩ := hpath.withExtension? hslash hlong hbeside
  obtain ⟨front', n', hp', hname⟩ := name_of_noFolder hdisk.grounded hpath hx nofun
  obtain ⟨rfl, rfl⟩ : front' = front ∧ n' = n := by simpa using (congrArg Path.parts hp').symm.trans (congrArg Path.parts hp)
  by_cases hsame : beside = path
  · -- the file beside is the file itself
    subst hsame
    obtain ⟨hwrite, hreplaced⟩ := write_replaces hdisk.grounded hx (Utf8.encode t)
    have hmove := move_self hpath hp hname hreplaced.stands
    exact ⟨_, _, replaceFile_of_steps hwrite hmove, hreplaced, fun h => absurd rfl h, hdisk.write hwrite⟩
  · obtain ⟨folder, name, hentry⟩ := hfree hsame
    have hne : k ≠ n' := fun h => hsame (by rw [hk, hp, h])
    rw [hp] at hpath hx ⊢
    rw [hk] at hnormal hentry ⊢
    obtain ⟨top, d, hfolder⟩ := leadsToFolder_of_resolve hdisk.grounded hpath hx
    have hasks := askable_of_resolve hfolder hpath hname hx
    have hasks' := askable_of_resolve hfolder hnormal hup hentry
    have hnone : d.get? k = none := by
      rw [hasks'.resolve hfolder (.inl rfl)] at hentry
      cases hk : d.get? k with
      | none => rfl
      | some e =>
        rw [hk] at hentry
        cases hentry
    obtain ⟨disk', hrun, hreplaced, hbeside', hordered⟩ := replaceFile_free hdisk hasks hasks' hne hfolder hx hnone t
    exact ⟨disk', _, hrun, hreplaced, fun _ => ⟨top, k, hbeside'⟩, hreplaced.grounded hdisk.grounded, hordered⟩

end Disk

end ActionSweep
