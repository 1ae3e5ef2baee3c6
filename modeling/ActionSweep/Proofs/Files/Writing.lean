/-
Files that are replaced. A text is written to a file beside the one meant and moved into place. Only these
two places change, and no path to a folder leads through them; so the folder of both is found as before,
and what is read afterwards is the text.
-/
import ActionSweep.Proofs.Files.Outlasting

namespace ActionSweep

namespace Disk

open ActionSweep.Path (IsPart)

/-! ## Names in one folder -/

/-- The working folder is there. -/
def Grounded (disk : Disk) : Prop := disk.root.FolderAt disk.workingFolder

theorem Grounded.start {disk : Disk} (h : disk.Grounded) (p : Path) :
    disk.root.FolderAt (if p.isAbsolute then [] else disk.workingFolder) := Dir.FolderAt.start h p.isAbsolute

/-- A path in normal form that ends with a name and can be asked about. -/
structure Askable (a : Anchor) (front : List Text) (n : Text) : Prop where
  normal : (Path.mk a (front ++ [n])).Normal
  notUp : n ≠ ['.', '.']
  noZero : '\x00' ∉ (Path.mk a (front ++ [n])).text
  shortPath : (Utf8.encode (Path.mk a (front ++ [n])).text).length ≤ pathLimit
  shortName : (Utf8.encode n).length ≤ nameLimit

theorem Askable.part {a : Anchor} {front : List Text} {n : Text} (h : Askable a front n) : IsPart n :=
  h.normal n (by simp)

/-- A path leads to a folder. -/
def LeadsToFolder (disk : Disk) (p : Path) (folder : List Text) (d : Dir) : Prop :=
  disk.leads .target p = .ok (.found folder (.folder d))

section Names

variable {disk : Disk} {a : Anchor} {front folder : List Text} {d : Dir} {n : Text} {aim : Aim} {x : Place}

theorem LeadsToFolder.find? (h : disk.LeadsToFolder ⟨a, front⟩ folder d) : disk.root.find? folder = some (.folder d) :=
  resolveParts_found h

/-- A path that leads somewhere, and ends with a name, leads through a folder. -/
theorem leadsToFolder_of_resolve (hdisk : disk.Grounded) (hp : (Path.mk a (front ++ [n])).Normal)
    (h : disk.resolve aim (Path.mk a (front ++ [n])).text = .ok x) : ∃ folder d, disk.LeadsToFolder ⟨a, front⟩ folder d :=
  resolveParts_front (hp n (by simp)).nonempty linkLimit (hdisk.start ⟨a, front⟩) ((resolve_text_ok hp).1 h).2

theorem LeadsToFolder.append (aim : Aim) (h : disk.LeadsToFolder ⟨a, front⟩ folder d) (hn : n ≠ []) :
    ∃ m, disk.leads aim ⟨a, front ++ [n]⟩ = resolveParts disk.root aim m folder [n] :=
  resolveParts_append (List.cons_ne_nil n []) (fun _ => by simpa using hn) h

theorem askable_of_resolve (h : disk.LeadsToFolder ⟨a, front⟩ folder d) (hp : (Path.mk a (front ++ [n])).Normal)
    (hup : n ≠ ['.', '.']) (hx : disk.resolve aim (Path.mk a (front ++ [n])).text = .ok x) : Askable a front n := by
  obtain ⟨⟨hzero, hshort⟩, hleads⟩ := (resolve_text_ok hp).1 hx
  refine ⟨hp, hup, hzero, hshort, Nat.le_of_not_lt fun hlong => ?_⟩
  have hn := hp n (by simp)
  obtain ⟨m, hm⟩ := h.append aim hn.nonempty
  rw [hm, resolveParts_name h.find? hn hup, if_pos hlong] at hleads
  cases hleads

theorem Askable.resolve (hn : Askable a front n) (h : disk.LeadsToFolder ⟨a, front⟩ folder d)
    (haim : aim = .entry ∨ ∀ t, d.get? n ≠ some (.link t)) :
    disk.resolve aim (Path.mk a (front ++ [n])).text = .ok (.named folder n (d.get? n)) := by
  refine (resolve_text_ok hn.normal).2 ⟨⟨hn.noZero, hn.shortPath⟩, ?_⟩
  obtain ⟨m, hm⟩ := h.append aim hn.part.nonempty
  rw [hm, resolveParts_name h.find? hn.part hn.notUp, if_neg (Nat.not_lt.2 hn.shortName)]
  split
  · rename_i t hlink
    rcases haim with rfl | hno
    · rw [hlink]
      rfl
    · exact absurd hlink (hno t)
  · rfl

/-- A name that does not lead to a folder can be removed from its folder. -/
theorem Askable.removable (hn : Askable a front n) (h : disk.LeadsToFolder ⟨a, front⟩ folder d)
    (hx : disk.resolve .target (Path.mk a (front ++ [n])).text = .ok x) (hno : x.NoFolder) :
    Removable disk.root (folder ++ [n]) := by
  intro e he
  rw [Dir.find?_concat folder n h.find?] at he
  rw [List.dropLast_concat]
  cases e with
  | file b => exact .inl ⟨b, rfl⟩
  | folder inside =>
    rw [hn.resolve h (.inr fun t ht => by rw [he] at ht; cases ht), he] at hx
    cases hx
    exact absurd rfl (hno _ inside)
  | link t =>
    have hleads := ((resolve_text_ok hn.normal).1 hx).2
    obtain ⟨m, hm⟩ := h.append .target hn.part.nonempty
    rw [hm, resolveParts_name h.find? hn.part hn.notUp, if_neg (Nat.not_lt.2 hn.shortName), he] at hleads
    dsimp only at hleads
    rw [if_neg (by decide)] at hleads
    cases m with
    | zero => cases hleads
    | succ m => exact .inr ⟨t, rfl, m, x, hleads, hno⟩

theorem LeadsToFolder.outlasts (hdisk : disk.Grounded) (h : disk.LeadsToFolder ⟨a, front⟩ folder d) {root' : Dir}
    (hout : Outlasts disk.root root') {d' : Dir} (hfind : root'.find? folder = some (.folder d')) :
    (disk.setRoot root').LeadsToFolder ⟨a, front⟩ folder d' := by
  obtain ⟨d'', hd''⟩ := resolveParts_outlasts hout linkLimit (hdisk.start ⟨a, front⟩) h
  have hfind' : root'.find? folder = some (.folder d'') := resolveParts_found hd''
  rw [hfind] at hfind'
  cases hfind'
  exact hd''

/-- What is no folder has a name. -/
theorem name_of_noFolder {p : Path} (hdisk : disk.Grounded) (hp : p.Normal) (hx : disk.resolve aim p.text = .ok x)
    (hno : x.NoFolder) : ∃ front n, p = ⟨p.anchor, front ++ [n]⟩ ∧ n ≠ ['.', '.'] := by
  obtain ⟨a, parts⟩ := p
  rcases List.eq_nil_or_concat' parts with rfl | ⟨front, n, rfl⟩
  · obtain ⟨d, hd⟩ := hdisk.start ⟨a, []⟩
    obtain ⟨jump, hjump⟩ := resolveParts_walk disk.root aim linkLimit
    have hleads := ((resolve_text_ok hp).1 hx).2
    unfold leads at hleads
    simp only [hjump, walk, hd] at hleads
    cases hleads
    exact absurd rfl (hno _ d)
  · refine ⟨front, n, rfl, ?_⟩
    rintro rfl
    obtain ⟨folder, d, hfront⟩ := leadsToFolder_of_resolve hdisk hp hx
    obtain ⟨m, hm⟩ := hfront.append aim (show (['.', '.'] : Text) ≠ [] by decide)
    obtain ⟨jump, hjump⟩ := resolveParts_walk disk.root aim m
    obtain ⟨above, habove⟩ := Dir.FolderAt.dropLast ⟨d, hfront.find?⟩
    have hleads := ((resolve_text_ok hp).1 hx).2
    rw [hm, hjump, walk_up] at hleads
    simp only [walk, habove] at hleads
    cases hleads
    exact absurd rfl (hno _ above)

/-! ## Replacing a file -/

theorem Askable.read (hn : Askable a front n) (h : disk.LeadsToFolder ⟨a, front⟩ folder d) {b : Bytes}
    (hb : d.get? n = some (.file b)) : disk.read (Path.mk a (front ++ [n])).text = .ok b := by
  refine read_ok.2 ⟨folder ++ [n], ?_⟩
  rw [hn.resolve h (.inr fun t ht => by rw [hb] at ht; cases ht), hb]
  rfl

theorem Askable.write (hn : Askable a front n) (h : disk.LeadsToFolder ⟨a, front⟩ folder d)
    (hfree : ∀ e, d.get? n = some e → ∃ b, e = .file b) (bytes : Bytes) :
    disk.write (Path.mk a (front ++ [n])).text bytes =
      .ok (disk.setRoot (disk.root.putAt (folder ++ [n]) (.file bytes))) := by
  have hlink : ∀ t, d.get? n ≠ some (.link t) := by
    intro t ht
    obtain ⟨b, ⟨⟩⟩ := hfree _ ht
  unfold Disk.write
  rw [hn.resolve h (.inr hlink)]
  cases he : d.get? n with
  | none => rfl
  | some e =>
    obtain ⟨b, rfl⟩ := hfree e he
    rfl

theorem nameless?_concat (hp : (Path.mk a (front ++ [n])).Normal) :
    nameless? (Path.mk a (front ++ [n])).text = if n = ['.', '.'] then some .notEmpty else none := by
  have hparts : Path.partsOf (Path.mk a (front ++ [n])).text = front ++ [n] := congrArg Path.parts (Path.ofText_text hp)
  unfold nameless?
  rw [hparts, List.getLast?_concat]

theorem notUp_of_named (hp : (Path.mk a (front ++ [n])).Normal) (h : nameless? (Path.mk a (front ++ [n])).text = none) :
    n ≠ ['.', '.'] := by
  rintro rfl
  rw [nameless?_concat hp, if_pos rfl] at h
  cases h

theorem Askable.named (hn : Askable a front n) : nameless? (Path.mk a (front ++ [n])).text = none := by
  rw [nameless?_concat hn.normal, if_neg hn.notUp]

theorem Askable.move {k : Text} (hn : Askable a front n) (hk : Askable a front k)
    (h : disk.LeadsToFolder ⟨a, front⟩ folder d) {b : Bytes} (hb : d.get? n = some (.file b))
    (hgoal : ∀ inside, d.get? k ≠ some (.folder inside)) :
    disk.move (Path.mk a (front ++ [n])).text (Path.mk a (front ++ [k])).text =
      .ok (if n = k then disk
        else disk.setRoot ((disk.root.eraseAt (folder ++ [n])).putAt (folder ++ [k]) (.file b))) := by
  unfold Disk.move
  rw [hn.resolve h (.inl rfl), hk.resolve h (.inl rfl), hb]
  simp only [hn.named, hk.named, Option.isSome_none, Bool.or_self, Bool.false_eq_true, if_false, Place.named]
  cases he : d.get? k with
  | none =>
    have hne : n ≠ k := by
      rintro rfl
      rw [hb] at he
      cases he
    rw [if_neg hne]
    rfl
  | some e =>
    have hplace : (folder ++ [n] = folder ++ [k]) ↔ n = k := by simp
    cases e with
    | folder inside => exact absurd he (hgoal inside)
    | file c | link t =>
      simp only [moveEntry, hplace]
      by_cases hnk : n = k
      · rw [if_pos hnk, if_pos hnk]
      · rw [if_neg hnk, if_neg hnk]

end Names

/-- A path at which a file can be written without going through a link. -/
def FreeForFile (disk : Disk) (path : Text) : Prop :=
  ∃ x, disk.resolve .entry path = .ok x ∧ ∀ place e, x = .found place e → ∃ b, e = .file b

theorem FreeForFile.get? {disk : Disk} {a : Anchor} {front folder : List Text} {n : Text} {d : Dir}
    (hfree : disk.FreeForFile (Path.mk a (front ++ [n])).text) (hn : Askable a front n)
    (h : disk.LeadsToFolder ⟨a, front⟩ folder d) : ∀ e, d.get? n = some e → ∃ b, e = .file b := by
  obtain ⟨x, hx, hfile⟩ := hfree
  rw [hn.resolve h (.inl rfl)] at hx
  cases hx
  intro e he
  exact hfile _ e (by rw [he]; rfl)

theorem replaceFile_of_steps {disk disk' disk'' : Disk} {beside path : Path} {t : Text}
    (hwrite : disk.write beside.text (Utf8.encode t) = .ok disk') (hmove : disk'.move beside.text path.text = .ok disk'') :
    FileWork.replaceFile beside path t disk = .ok () disk'' := by
  simp only [FileWork.replaceFile, bind, EStateM.bind, FileWork.change, hwrite, hmove]

/-- A file is replaced by a file beside it: it has the new text then, and nothing else has changed but
that the file beside it is gone, so it can be replaced again. -/
theorem replaceFile_ok {disk : Disk} (hdisk : disk.Grounded) {a : Anchor} {front : List Text} {name beside : Text}
    (hpath : (Path.mk a (front ++ [name])).Normal) (hname : name ≠ ['.', '.'])
    (hbeside : (Path.mk a (front ++ [beside])).Normal) (hup : beside ≠ ['.', '.']) {x : Place}
    (hx : disk.resolve .target (Path.mk a (front ++ [name])).text = .ok x) (hno : x.NoFolder)
    (hfree : disk.FreeForFile (Path.mk a (front ++ [beside])).text) (t : Text) :
    ∃ root', FileWork.replaceFile ⟨a, front ++ [beside]⟩ ⟨a, front ++ [name]⟩ t disk = .ok () (disk.setRoot root') ∧
      (disk.setRoot root').read (Path.mk a (front ++ [name])).text = .ok (Utf8.encode t) ∧
      (∃ folder, disk.root.SameBut [folder ++ [beside], folder ++ [name]] root') ∧
      (disk.root.Ordered → (disk.setRoot root').FreeForFile (Path.mk a (front ++ [beside])).text) := by
  obtain ⟨folder, d, hfront⟩ := leadsToFolder_of_resolve hdisk hpath hx
  have hn := askable_of_resolve hfront hpath hname hx
  obtain ⟨y, hy, -⟩ := id hfree
  have hb := askable_of_resolve hfront hbeside hup hy
  have hget := hfree.get? hb hfront
  have hremovable : Removable disk.root (folder ++ [name]) := hn.removable hfront hx hno
  have hremovable' : Removable disk.root (folder ++ [beside]) := by
    intro e he
    rw [Dir.find?_concat folder beside hfront.find?] at he
    exact .inl (hget e he)
  -- the file beside is written
  have hwrite := hb.write hfront hget (Utf8.encode t)
  have hsame := Dir.sameBut_putAt (.file (Utf8.encode t)) (folder ++ [beside]) disk.root
  have hfront' := hfront.outlasts hdisk (outlasts_of_sameBut hsame (by simpa using hremovable'))
    (Dir.find?_putAt beside (.file (Utf8.encode t)) hfront.find?)
  have hbytes : (d.put beside (.file (Utf8.encode t))).get? beside = some (.file (Utf8.encode t)) := by
    rw [Dir.get?_put, if_pos rfl]
  -- and moved
  have hgoal : ∀ inside, (d.put beside (.file (Utf8.encode t))).get? name ≠ some (.folder inside) := by
    intro inside
    rw [Dir.get?_put]
    split
    · rintro ⟨⟩
    · intro he
      rcases hremovable _ ((Dir.find?_concat folder name hfront.find?).trans he) with ⟨b, ⟨⟩⟩ | ⟨u, ⟨⟩, -⟩
  have hrun : FileWork.replaceFile _ ⟨a, front ++ [name]⟩ t disk = .ok () _ := replaceFile_of_steps hwrite (hb.move hn hfront' hbytes hgoal)
  by_cases he' : beside = name
  · subst he'
    rw [if_pos rfl] at hrun
    refine ⟨_, hrun, hn.read hfront' hbytes, ⟨folder, hsame.mono (by simp)⟩, fun _ => ?_⟩
    refine ⟨_, hb.resolve hfront' (.inl rfl), fun place e he => ?_⟩
    rw [hbytes] at he
    cases he
    exact ⟨_, rfl⟩
  · rw [if_neg he'] at hrun
    have herase := hsame.trans (Dir.sameBut_eraseAt (folder ++ [beside]) _)
    obtain ⟨d', hd'⟩ := (outlasts_of_sameBut herase (by simpa using hremovable')).folder folder ⟨d, hfront.find?⟩
    have hmoved := herase.trans (Dir.sameBut_putAt (.file (Utf8.encode t)) (folder ++ [name]) _)
    have hfront'' := hfront.outlasts hdisk (outlasts_of_sameBut hmoved (by simpa using ⟨hremovable', hremovable⟩))
      (Dir.find?_putAt name (.file (Utf8.encode t)) hd')
    refine ⟨_, hrun, hn.read hfront'' (by rw [Dir.get?_put, if_pos rfl]), ⟨folder, hmoved.mono (by simp)⟩, fun hordered => ?_⟩
    refine ⟨_, hb.resolve hfront'' (.inl rfl), fun place e he => ?_⟩
    have hgone : d'.get? beside = none := by
      rw [← Dir.find?_concat folder beside hd']
      exact (hordered.putAt (by rintro _ ⟨⟩)).find?_eraseAt (by simp) (List.prefix_refl _)
    rw [Dir.get?_put, if_neg (Ne.symm he'), hgone] at he
    cases he

/-- A file that can be found, or whose name is free, can be replaced, if no folder and no link stands beside it under
the same name with the other extension. -/
structure Replaceable (disk : Disk) (path : Path) (extension : Text) : Prop where
  target : ∃ x, disk.resolve .target path.text = .ok x ∧ x.NoFolder
  beside : ∀ beside, path.withExtension? extension = some beside → disk.FreeForFile beside.text

/-- A file is replaced by one with another extension: it has the new text then, and can be replaced again. -/
theorem Replaceable.replaceFile {disk : Disk} {path : Path} {extension : Text} (h : disk.Replaceable path extension)
    (hdisk : disk.Grounded) (hpath : path.Normal) (hslash : '/' ∉ extension) (hlong : 3 ≤ extension.length) {beside : Path}
    (hbeside : path.withExtension? extension = some beside) (t : Text) :
    ∃ root', FileWork.replaceFile beside path t disk = .ok () (disk.setRoot root') ∧
      (disk.setRoot root').read path.text = .ok (Utf8.encode t) ∧
      (disk.root.Ordered → (disk.setRoot root').Replaceable path extension) := by
  obtain ⟨x, hx, hno⟩ := h.target
  have hfree := h.beside beside hbeside
  obtain ⟨front, n, k, hp, rfl, hnormal, hup⟩ := hpath.withExtension? hslash hlong hbeside
  obtain ⟨front', n', hp', hname⟩ := name_of_noFolder hdisk hpath hx hno
  obtain ⟨rfl, rfl⟩ : front' = front ∧ n' = n := by simpa using (congrArg Path.parts hp').symm.trans (congrArg Path.parts hp)
  rw [hp] at hpath hx
  obtain ⟨root', hrun, hread, -, hagain⟩ := replaceFile_ok hdisk hpath hname hnormal hup hx hno hfree t
  rw [← hp] at hrun hread
  refine ⟨root', hrun, hread, fun hordered => ⟨?_, fun beside' hbeside' => ?_⟩⟩
  · obtain ⟨place, hplace⟩ := read_ok.1 hread
    exact ⟨_, hplace, by rintro _ _ ⟨⟩⟩
  · rw [hbeside] at hbeside'
    cases hbeside'
    exact hagain hordered

end Disk

end ActionSweep
