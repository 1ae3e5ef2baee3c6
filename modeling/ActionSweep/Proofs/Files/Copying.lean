/-
Copying a file in a file tree: where the copy goes if there is one, that nothing is left of a copy that is refused, and
what a tree holds when the file itself is removed after it was copied.
-/
import ActionSweep.Proofs.Files.Alike
import ActionSweep.Proofs.Files.Making

namespace ActionSweep

namespace Dir

variable {d d' : Dir} {path place folder : List Text} {n : Text} {b : Bytes}

theorem OnlyAt.symm (h : OnlyAt place d d') : OnlyAt place d' d := fun path hne => (h path hne).symm

theorem OnlyAt.stillHas (h : OnlyAt place d d') (hne : path ≠ place) {e : Entry} (he : d'.find? path = some e) : d.StillHas path e := by
  have hshell := h path hne
  rw [he, Option.map_some, eq_comm, Option.map_eq_some_iff] at hshell
  exact hshell

theorem OnlyAt.file_iff (h : OnlyAt place d d') (hne : path ≠ place) :
    d'.find? path = some (.file b) ↔ d.find? path = some (.file b) :=
  ⟨fun hb => (h.stillHas hne hb).find?_file, fun hb => (h.symm.stillHas hne hb).find?_file⟩

/-- A tree in which one place without a folder holds a file from now on, or nothing. -/
structure Sets (place : List Text) (content : Option Bytes) (d d' : Dir) : Prop where
  files : ∀ q c, d'.find? q = some (.file c) ↔ q = place ∧ content = some c ∨ q ≠ place ∧ d.find? q = some (.file c)
  folders : ∀ q, d'.FolderAt q ↔ d.FolderAt q
  unlinked : d.Unlinked → d'.Unlinked
  wellFormed : d.WellFormed → d'.WellFormed

theorem OnlyAt.sets (h : OnlyAt place d d') {content : Option Bytes} (hbefore : ¬ d.FolderAt place)
    (hplace : d'.find? place = content.map .file) (hnames : ∀ n ∈ place, IsName n) (hordered : d.Ordered → d'.Ordered) :
    Sets place content d d' := by
  have hafter : ¬ d'.FolderAt place := not_folderAt_of_file fun e he => by
    rw [hplace, Option.map_eq_some_iff] at he
    obtain ⟨b, -, rfl⟩ := he
    exact ⟨b, rfl⟩
  constructor
  case files =>
    intro q c
    by_cases hq : q = place
    · subst hq
      rw [hplace]
      simp
    · simp [hq, h.file_iff hq]
  case folders => exact fun q => ⟨h.symm.folderAt hafter, h.folderAt hbefore⟩
  case unlinked =>
    intro hless q t ht
    have hq : q ≠ place := by
      rintro rfl
      rw [hplace, Option.map_eq_some_iff] at ht
      obtain ⟨b, -, hb⟩ := ht
      cases hb
    obtain ⟨e, he, hshell⟩ := h.stillHas hq ht
    exact hless q t (Entry.shell_eq_link.1 hshell ▸ he)
  case wellFormed =>
    refine fun hd => wellFormed_of_ordered (hordered hd.ordered) fun q e he => ?_
    by_cases hq : q = place
    · exact hq ▸ hnames
    · obtain ⟨e', he', -⟩ := h.stillHas hq he
      exact (hd.find? he').1

/-- A file put under a name without a folder. -/
theorem sets_putAt (hd : d.WellFormed) (hfolder : d.FolderAt folder) (hn : IsName n) (hfree : ¬ d.FolderAt (folder ++ [n])) (b : Bytes) :
    Sets (folder ++ [n]) (some b) d (d.putAt (folder ++ [n]) (.file b)) := by
  obtain ⟨inside, hinside⟩ := hfolder
  have hself : (d.putAt (folder ++ [n]) (.file b)).find? (folder ++ [n]) = some (.file b) := by
    rw [find?_concat _ _ (find?_putAt _ _ hinside), get?_put, if_pos rfl]
  refine ((sameBut_putAt _ _ _).onlyAt hfree (not_folderAt_of_leaf hself (by rintro _ ⟨⟩))).sets hfree hself ?_
    (Ordered.putAt (by rintro _ ⟨⟩))
  intro k hk
  rcases List.mem_append.1 hk with hk | hk
  · exact (hd.find? hinside).1 k hk
  · rwa [List.mem_singleton.1 hk]

/-- A file that is removed. -/
theorem sets_eraseAt (hd : d.WellFormed) (hfile : d.find? place = some (.file b)) : Sets place none d (d.eraseAt place) := by
  have hne : place ≠ [] := by
    rintro rfl
    cases hfile
  have hleaf := not_folderAt_of_leaf hfile (by rintro _ ⟨⟩)
  have hnone := hd.ordered.find?_eraseAt hne (List.prefix_refl place)
  exact ((sameBut_eraseAt place d).onlyAt hleaf (not_folderAt_of_none hnone)).sets hleaf hnone (hd.find? hfile).1 Ordered.eraseAt

end Dir

namespace FileWork

open Disk (Askable)

variable {disk disk' : Disk} {source target : Path} {bytes : Bytes} {f : Fault}

/-- Where the copy goes: below a folder under the name of the source. -/
def copyTarget (disk : Disk) (source target : Path) : Path :=
  if disk.leadsToFolder target.text then ⟨target.anchor, target.parts ++ source.name?.toList⟩ else target

theorem copy_eq (disk : Disk) (source target : Path) : copy source target disk =
    if sameEntry disk source.text (copyTarget disk source target).text then
      .error (.sameFile source.text (copyTarget disk source target).text (disk.leadsToFolder target.text)) disk
    else match disk.read source.text with
      | .error f => .error f disk
      | .ok bytes => writeCopy (copyTarget disk source target) bytes disk := by
  unfold copy
  rfl

/-! ## Refused copies -/

theorem zero_not_mem_copyTarget (hsource : '\x00' ∉ source.text) (htarget : '\x00' ∉ target.text) :
    '\x00' ∉ (copyTarget disk source target).text := by
  unfold copyTarget
  split
  · refine Path.zero_not_mem_text fun n hn => ?_
    rcases List.mem_append.1 hn with hn | hn
    · exact Path.zero_not_mem_parts htarget n hn
    · exact Path.zero_not_mem_parts hsource n (List.mem_of_getLast? (Option.mem_toList.1 hn))
  · exact htarget

theorem writeCopy_fault (hzero : '\x00' ∉ target.text) (h : writeCopy target bytes disk = .error f disk') :
    disk' = disk ∧ f.isFile = true := by
  unfold writeCopy at h
  cases hwrite : disk.write target.text bytes with
  | ok moment =>
    rw [hwrite] at h
    cases h
  | error g =>
    have hg := Disk.write_fault hzero hwrite
    rw [hwrite] at h
    cases g with
    | file ff =>
      simp only at h
      split at h <;> cases h <;> exact ⟨rfl, rfl⟩
    | _ =>
      cases h
      exact ⟨rfl, hg⟩

/-- A copy that is refused leaves nothing behind. -/
theorem copy_fault (hsource : '\x00' ∉ source.text) (htarget : '\x00' ∉ target.text)
    (h : copy source target disk = .error f disk') : disk' = disk ∧ f.isFile = true := by
  rw [copy_eq] at h
  split at h
  · cases h
    exact ⟨rfl, rfl⟩
  · cases hread : disk.read source.text with
    | error g =>
      rw [hread] at h
      cases h
      exact ⟨rfl, Disk.read_fault hsource hread⟩
    | ok bytes =>
      rw [hread] at h
      exact writeCopy_fault (zero_not_mem_copyTarget hsource htarget) h

/-- What a copy that goes through has read and written. -/
theorem copy_ok (h : copy source target disk = .ok () disk') : ∃ bytes, disk.read source.text = .ok bytes ∧
    disk.write (copyTarget disk source target).text bytes = .ok disk' := by
  rw [copy_eq] at h
  split at h
  · cases h
  · cases hread : disk.read source.text with
    | error g =>
      rw [hread] at h
      cases h
    | ok bytes =>
      rw [hread] at h
      refine ⟨bytes, rfl, ?_⟩
      simp only [writeCopy] at h
      split at h
      · rename_i hwrite
        cases h
        exact hwrite
      · split at h <;> cases h
      · cases h

/-- A path that is too long takes no copy. -/
theorem copy_long (hp : target.Normal) (hlong : Disk.pathLimit < (Utf8.encode target.text).length) :
    copy source target disk ≠ .ok () disk' := by
  intro h
  obtain ⟨bytes, -, hwrite⟩ := copy_ok h
  have hresolve : ∀ aim place, disk.resolve aim target.text ≠ .ok place := fun aim place hx =>
    absurd ((Disk.resolve_text_ok hp).1 hx).1.2 (Nat.not_le.2 hlong)
  have hfolder : disk.leadsToFolder target.text = false := by
    by_contra hf
    obtain ⟨d, hd⟩ := Disk.list_of_isFolder (Disk.isFolder_of_leadsToFolder (eq_true_of_ne_false hf))
    obtain ⟨place, hx⟩ := Disk.list_ok.1 hd
    exact hresolve _ _ hx
  rw [copyTarget, hfolder] at hwrite
  obtain ⟨x, hx, -⟩ := Disk.write_ok hwrite
  exact hresolve _ _ hx

/-! ## Copies that go through -/

variable {a : Anchor} {front folder place : List Text} {n : Text} {d : Dir} {b : Bytes}

/-- A file is copied to a name of another place under which no folder stands. -/
theorem copy_runs (hsource : disk.resolve .target source.text = .ok (.found place (.file b))) (hn : Askable a front n)
    (h : disk.LeadsToFolder ⟨a, front⟩ folder d) (hfree : ∀ e, d.get? n = some e → ∃ c, e = .file c) (hne : place ≠ folder ++ [n]) :
    copy source ⟨a, front ++ [n]⟩ disk = .ok () (disk.setRoot (disk.root.putAt (folder ++ [n]) (.file b))) := by
  have hresolve : disk.resolve .target (Path.mk a (front ++ [n])).text = .ok (.named folder n (d.get? n)) :=
    hn.resolve h (.inr fun t ht => by obtain ⟨c, hc⟩ := hfree _ ht; cases hc)
  have hfolder : disk.leadsToFolder (Path.mk a (front ++ [n])).text = false := by
    unfold Disk.leadsToFolder Disk.isFolder Disk.test
    rw [hresolve]
    cases hget : d.get? n with
    | none => rfl
    | some e =>
      obtain ⟨c, rfl⟩ := hfree e hget
      rfl
  have hsame : sameEntry disk source.text (Path.mk a (front ++ [n])).text = false := by
    unfold sameEntry
    rw [hsource, hresolve]
    cases d.get? n with
    | none => rfl
    | some e => exact decide_eq_false hne
  have hread : disk.read source.text = .ok b := Disk.read_ok.2 ⟨place, hsource⟩
  have htarget : copyTarget disk source ⟨a, front ++ [n]⟩ = ⟨a, front ++ [n]⟩ := by rw [copyTarget, hfolder]; rfl
  rw [copy_eq, htarget, hsame, if_neg (by decide), hread]
  simp only [writeCopy]
  rw [hn.write h hfree]

end FileWork

end ActionSweep
