/-
Files that are not replaced. A path that led to something leads to something of the same kind after a file was written
anywhere. So a file that is there can be replaced exactly if the file beside it can be written, whatever is written; and
where that fails the file stays as it is, and nothing is lost but a link at the path beside it.
-/
import ActionSweep.Proofs.Files.Alike
import ActionSweep.Proofs.Files.Making
import ActionSweep.Proofs.Files.FolderRemoval

namespace ActionSweep

namespace Disk

variable {disk disk' : Disk} {t u : Text} {bytes : Bytes} {place : List Text} {e : Entry}

theorem removeFile_fault {f : Fault} (hzero : '\x00' ∉ t) (h : disk.removeFile t = .error f) : f.isFile = true := by
  refine resolve_bind_fault hzero (fun x g hg => ?_) h
  split at hg <;> cases hg <;> rfl

/-! ## Writing -/

/-- A path to a file is that of the file or of a link. -/
theorem entry_of_file {b : Bytes} (hx : disk.resolve .target t = .ok (.found place (.file b))) :
    ∃ p e, disk.resolve .entry t = .ok (.found p e) ∧ ∀ inside, e ≠ .folder inside := by
  rcases resolve_entry_or_link (by decide) hx with h | ⟨p, v, h⟩
  · exact ⟨_, _, h, nofun⟩
  · exact ⟨_, _, h, nofun⟩

/-- A path at which a file can be written. -/
def Writable (disk : Disk) (t : Text) : Prop :=
  ∃ x, disk.resolve .writing t = .ok x ∧ ∀ place e, x = .found place e → ∃ b, e = .file b

/-- Whether a file can be written does not depend on its content. -/
theorem write_runs_iff (bytes : Bytes) : (∃ disk', disk.write t bytes = .ok disk') ↔ disk.Writable t := by
  constructor
  · rintro ⟨disk', h⟩
    obtain ⟨x, hx, hfile, -, -⟩ := write_ok h
    refine ⟨x, hx, ?_⟩
    rintro place e rfl
    exact hfile e (resolve_stands hx)
  · rintro ⟨x, hx, hfile⟩
    unfold write
    rw [hx]
    cases x with
    | free folder name => exact ⟨_, rfl⟩
    | found place e =>
      obtain ⟨b, rfl⟩ := hfile place e rfl
      exact ⟨_, rfl⟩

/-- After a file was written every path that led to something leads to something of the same kind. -/
theorem write_keeps (hdisk : disk.Grounded) (h : disk.write u bytes = .ok disk')
    (hx : disk.resolve .target t = .ok (.found place e)) :
    ∃ e', disk'.resolve .target t = .ok (.found place e') ∧ e'.kind = e.kind := by
  have hchanges := write_changes h
  obtain ⟨y, hy, hfile, -, rfl⟩ := write_ok h
  have hstands := resolve_stands hy
  cases y with
  | found p f =>
    obtain ⟨b, rfl⟩ := hfile f hstands
    have hafter : ∃ c, (disk.root.putAt p (.file bytes)).find? p = some (.file c) := by
      rcases Dir.find?_putAt_self (.file bytes) p disk.root with hput | hput
      · exact ⟨_, hput⟩
      · exact ⟨_, hput.trans hstands⟩
    obtain ⟨c, hc⟩ := hafter
    have hsame := Dir.sameBut_putAt (.file bytes) p disk.root
    have halike := (hsame.onlyAt (Dir.not_folderAt_of_leaf hstands nofun) (Dir.not_folderAt_of_leaf hc nofun)).alike hstands hc
    have hresolve : ((disk.setRoot _).resolve .target t).map Place.kind = (disk.resolve .target t).map Place.kind :=
      resolve_alike (by decide) halike t
    rw [hx] at hresolve
    obtain ⟨z, hz, hkind⟩ := Outcome.map_ok.1 hresolve
    cases z with
    | free folder name => cases hkind
    | found q e' =>
      obtain ⟨rfl, hsame⟩ := Place.found.inj hkind
      exact ⟨e', hz, hsame⟩
  | free folder name =>
    -- nothing stood at the place of the new file, so everything that was found is still there
    have hways : ∀ path f, disk.root.find? path = some f → (disk.root.putAt (folder ++ [name]) (.file bytes)).StillHas path f := by
      intro path f hf
      refine (hchanges.stillHas hf).resolve_right ?_
      rintro ⟨-, z, hz, hpath⟩
      obtain rfl : Place.free folder name = z := Except.ok.inj (hy.symm.trans hz)
      subst hpath
      cases hf.symm.trans hstands
    obtain ⟨hask, hparts⟩ := resolve_ok.1 hx
    obtain ⟨e', hshell, hfinds⟩ := (finds_of_resolveParts hparts).mono hways (Dir.FolderAt.start hdisk _)
    refine ⟨e', resolve_ok.2 ⟨hask, resolveParts_of_finds hfinds⟩, ?_⟩
    rw [← e'.kind_shell, hshell, e.kind_shell]

/-- What a path leads to once a file or a link was removed it led to before. -/
theorem found_before_removal (hdisk : disk.Sound) (h : disk.removeFile u = .ok disk')
    (hx : disk'.resolve .target t = .ok (.found place (.file bytes))) :
    disk.resolve .target t = .ok (.found place (.file bytes)) := by
  have hdisk' := hdisk.removeFile h
  obtain ⟨spot, e, hentry, hleaf, rfl⟩ := removeFile_ok h
  have hspot : spot ≠ [] := by
    rintro rfl
    have hstands : disk.root.find? [] = some e := resolve_stands hentry
    cases hstands
    exact hleaf _ rfl
  obtain ⟨hask, hparts⟩ := resolve_ok.1 hx
  obtain ⟨e', hshell, hfinds⟩ := (finds_of_resolveParts hparts).mono
    (fun _ _ hf => hdisk.ordered.stillHas_of_eraseAt hspot hf) (Dir.FolderAt.start hdisk'.grounded _)
  rw [Entry.shell_eq_file.1 hshell] at hfinds
  exact resolve_ok.2 ⟨hask, resolveParts_of_finds hfinds⟩

end Disk

namespace FileWork

variable {disk disk' : Disk} {path beside : Path} {t : Text} {place : List Text} {b : Bytes}

/-! ## Replacing -/

/-- A file or a link beside a path is moved to the path if that leads to a file. -/
theorem moves_to_file (hdisk : disk.Grounded) (hp : path.Normal) {extension : Text} (hslash : '/' ∉ extension)
    (hlong : 3 ≤ extension.length) (hbeside : path.withExtension? extension = some beside)
    (hsource : ∃ p e, disk.resolve .entry beside.text = .ok (.found p e) ∧ ∀ inside, e ≠ .folder inside)
    (hx : disk.resolve .target path.text = .ok (.found place (.file b))) :
    ∃ disk', disk.move beside.text path.text = .ok disk' := by
  obtain ⟨front, n, hname, hup⟩ := Disk.name_of_noFolder hdisk hp hx nofun
  obtain ⟨front', m, k, hname', rfl, hnormal, hup'⟩ := hp.withExtension? hslash hlong hbeside
  have hnamed : Disk.nameless? path.text = none := by
    rw [hname] at hp ⊢
    rw [Disk.nameless?_concat hp, if_neg hup]
  have hnamed' : Disk.nameless? (Path.mk path.anchor (front' ++ [k])).text = none := by
    rw [Disk.nameless?_concat hnormal, if_neg hup']
  obtain ⟨p, e, hsource, hleaf⟩ := hsource
  obtain ⟨q, g, hgoal, hleaf'⟩ := Disk.entry_of_file hx
  obtain ⟨disk', hmove⟩ : ∃ disk', disk.moveEntry p e (.found q g) = .ok disk' := by
    cases e with
    | folder d => exact absurd rfl (hleaf d)
    | file _ | link _ =>
      cases g with
      | folder d => exact absurd rfl (hleaf' d)
      | file _ | link _ =>
        simp only [Disk.moveEntry]
        split
        · exact ⟨_, rfl⟩
        · exact ⟨_, rfl⟩
  refine ⟨disk', ?_⟩
  unfold Disk.move
  rw [hsource, hgoal]
  simp only [hnamed, hnamed', Option.isSome_none, Bool.or_self, Bool.false_eq_true, if_false, hmove]

/-- Where a file was written is that file, or a link to it. -/
theorem entry_of_written (hdisk : disk.Grounded) {u : Text} {bytes : Bytes} (h : disk.write u bytes = .ok disk') :
    ∃ p e, disk'.resolve .entry u = .ok (.found p e) ∧ ∀ inside, e ≠ .folder inside := by
  obtain ⟨y, hy, -⟩ := Disk.write_ok h
  exact Disk.entry_of_file (Disk.write_stands hdisk hy h)

/-- Once the file beside it is written, a file is replaced. -/
theorem move_runs (hdisk : disk.Grounded) (hp : path.Normal) {extension : Text} (hslash : '/' ∉ extension)
    (hlong : 3 ≤ extension.length) (hbeside : path.withExtension? extension = some beside)
    (hx : disk.resolve .target path.text = .ok (.found place (.file b))) {bytes : Bytes}
    (h : disk.write beside.text bytes = .ok disk') : ∃ disk'', disk'.move beside.text path.text = .ok disk'' := by
  obtain ⟨f, hf, hkind⟩ := Disk.write_keeps hdisk h hx
  obtain ⟨c, rfl⟩ := Entry.kind_eq_file.1 hkind
  have hdisk' : disk'.Grounded := by
    have hchanges := Disk.write_changes h
    obtain ⟨y, -, -, -, rfl⟩ := Disk.write_ok h
    exact hchanges.folderAt hdisk
  exact moves_to_file hdisk' hp hslash hlong hbeside (entry_of_written hdisk h) hf

/-- A file that is there can be replaced exactly if the file beside it can be written. -/
theorem replaceFile_runs_iff (hdisk : disk.Grounded) (hp : path.Normal) {extension : Text} (hslash : '/' ∉ extension)
    (hlong : 3 ≤ extension.length) (hbeside : path.withExtension? extension = some beside)
    (hx : disk.resolve .target path.text = .ok (.found place (.file b))) :
    (∃ disk', replaceFile beside path t disk = .ok () disk') ↔ disk.Writable beside.text := by
  constructor
  · rintro ⟨disk', h⟩
    obtain ⟨moment, hwrite, -⟩ := replaceFile_ok h
    exact (Disk.write_runs_iff _).1 ⟨moment, hwrite⟩
  · intro h
    obtain ⟨moment, hwrite⟩ := (Disk.write_runs_iff (Utf8.encode t)).2 h
    obtain ⟨disk', hmove⟩ := move_runs hdisk hp hslash hlong hbeside hx hwrite
    exact ⟨disk', Disk.replaceFile_of_steps hwrite hmove⟩

/-- What is left where a file was not replaced: everything, or everything but a link at the path beside it. -/
inductive NotReplaced (beside : Path) (disk : Disk) : Disk → Prop
  | same : NotReplaced beside disk disk
  | unlinked {spot : List Text} {u : Text} (hlink : disk.resolve .entry beside.text = .ok (.found spot (.link u))) :
      NotReplaced beside disk (disk.setRoot (disk.root.eraseAt spot))

/-- The files that were there are there still. -/
theorem NotReplaced.file (h : NotReplaced beside disk disk') (hfile : disk.root.find? place = some (.file b)) :
    disk'.root.find? place = some (.file b) := by
  cases h with
  | same => exact hfile
  | @unlinked spot u hlink =>
    have hstands : disk.root.find? spot = some (.link u) := Disk.resolve_stands hlink
    have hchanges : disk.root.ChangesAt (disk.root.eraseAt spot) (· = spot) :=
      .of_sameBut (Dir.sameBut_eraseAt _ _) (Dir.not_folderAt_of_leaf hstands nofun) rfl
    rcases hchanges.stillHas hfile with hstill | ⟨-, rfl⟩
    · exact hstill.find?_file
    · cases hfile.symm.trans hstands

/-- A path with another extension has no zero if the path has none. -/
theorem zero_not_mem_beside {extension : Text} (hzero : '\x00' ∉ extension) (hbeside : path.withExtension? extension = some beside)
    (h : '\x00' ∉ path.text) : '\x00' ∉ beside.text := by
  obtain ⟨anchor, parts⟩ := path
  rcases List.eq_nil_or_concat' parts with rfl | ⟨front, n, rfl⟩
  · cases hbeside
  · rw [Path.withExtension?_concat] at hbeside
    cases hbeside
    have hparts := Path.zero_not_mem_parts h
    refine Path.zero_not_mem_text fun m hm hmem => ?_
    rcases List.mem_append.1 hm with hm | hm
    · exact hparts m (List.mem_append_left _ hm) hmem
    · rw [List.mem_singleton.1 hm] at hmem
      rcases List.mem_append.1 hmem with hmem | hmem
      · exact hparts n (by simp) ((Path.stem_begins n).subset hmem)
      · exact hzero hmem

/-- A file that is not replaced stays. -/
theorem replaceFile_fails (hdisk : disk.Grounded) (hp : path.Normal) {extension : Text} (hslash : '/' ∉ extension)
    (hzero : '\x00' ∉ extension) (hlong : 3 ≤ extension.length) (hbeside : path.withExtension? extension = some beside)
    (hx : disk.resolve .target path.text = .ok (.found place (.file b))) {f : Fault}
    (h : replaceFile beside path t disk = .error f disk') : f.isFile = true ∧ NotReplaced beside disk disk' := by
  have hzero' := zero_not_mem_beside hzero hbeside (Disk.resolve_ok.1 hx).1.1
  obtain ⟨g, hwrite⟩ : ∃ g, disk.write beside.text (Utf8.encode t) = .error g := by
    cases hwrite : disk.write beside.text (Utf8.encode t) with
    | error g => exact ⟨g, rfl⟩
    | ok moment =>
      obtain ⟨disk'', hmove⟩ := move_runs hdisk hp hslash hlong hbeside hx hwrite
      rw [Disk.replaceFile_of_steps hwrite hmove] at h
      cases h
  simp only [replaceFile, bind, EStateM.bind, ask, change, hwrite] at h
  cases hpresent : disk.present beside.text with
  | error f' =>
    simp only [hpresent] at h
    cases h
    exact ⟨Disk.present_fault hpresent, .same⟩
  | ok there =>
    simp only [hpresent] at h
    cases there with
    | false =>
      cases h
      exact ⟨Disk.write_fault hzero' hwrite, .same⟩
    | true =>
      rw [if_pos rfl] at h
      cases hremove : disk.removeFile beside.text with
      | error f' =>
        simp only [change, hremove] at h
        cases h
        exact ⟨Disk.removeFile_fault hzero' hremove, .same⟩
      | ok disk'' =>
        simp only [change, hremove] at h
        cases h
        refine ⟨Disk.write_fault hzero' hwrite, ?_⟩
        obtain ⟨spot, e, hentry, hleaf, rfl⟩ := Disk.removeFile_ok hremove
        cases e with
        | link u => exact .unlinked hentry
        | folder d => exact absurd rfl (hleaf d)
        | file c =>
          -- over a file another one could have been written
          obtain ⟨hask, hparts⟩ := Disk.resolve_ok.1 hentry
          have htarget := Disk.resolve_ok.2 ⟨hask, Disk.resolveParts_entry hparts⟩
          obtain ⟨moment, hmoment⟩ := (Disk.write_runs_iff (Utf8.encode t)).2
            ⟨_, Disk.resolve_writing hdisk htarget, by rintro _ _ ⟨⟩; exact ⟨c, rfl⟩⟩
          rw [hwrite] at hmoment
          cases hmoment

theorem change_error {operation : Disk → Except Fault Disk} {f : Fault} (h : change operation disk = .error f disk') :
    disk' = disk ∧ operation disk = .error f := by
  unfold change at h
  split at h
  · cases h
  · rename_i hfault
    cases h
    exact ⟨rfl, hfault⟩

/-- Where a replacement fails the file beside was not written or not moved, and then it was removed or not. -/
theorem replaceFile_error {f : Fault} (h : replaceFile beside path t disk = .error f disk') : ∃ moment,
    (moment = disk ∨ disk.write beside.text (Utf8.encode t) = .ok moment ∧ ∃ g, moment.move beside.text path.text = .error g) ∧
      (disk' = moment ∨ moment.removeFile beside.text = .ok disk') := by
  have hcleared {moment last : Disk} (hlast : Outcome.left ((do
      if ← ask (·.present beside.text) then change (·.removeFile beside.text) : FileWork Unit) moment) = last) :
      last = moment ∨ moment.removeFile beside.text = .ok last := by
    subst hlast
    cases hpresent : moment.present beside.text with
    | error g => exact .inl (by simp [bind, EStateM.bind, ask, hpresent, Outcome.left])
    | ok there =>
      cases there with
      | false => exact .inl (by simp [bind, EStateM.bind, ask, hpresent, Outcome.left, pure, EStateM.pure])
      | true =>
        cases hremove : moment.removeFile beside.text with
        | error g => exact .inl (by simp [bind, EStateM.bind, ask, change, hpresent, hremove, Outcome.left])
        | ok disk' => exact .inr (by simp [bind, EStateM.bind, ask, change, hpresent, hremove, Outcome.left])
  unfold replaceFile at h
  split at h
  · cases h
  · rename_i g moment hsteps
    refine ⟨moment, ?_, hcleared ?_⟩
    · rcases Outcome.work_bind_error.1 hsteps with hwrite | ⟨_, between, hwrite, hmove⟩
      · exact .inl (change_error hwrite).1
      · obtain ⟨rfl, hmove⟩ := change_error hmove
        exact .inr ⟨change_ok hwrite, g, hmove⟩
    · split at h
      · rename_i hclear
        cases h
        rw [hclear]
        rfl
      · rename_i hclear
        cases h
        rw [hclear]
        rfl

/-- A path leads to no other file than before where it was not replaced. -/
theorem replaceFile_finds_old (hdisk : disk.Sound) (hp : path.Normal) {extension : Text} (hslash : '/' ∉ extension)
    (hlong : 3 ≤ extension.length) (hbeside : path.withExtension? extension = some beside) {f : Fault}
    (h : replaceFile beside path t disk = .error f disk')
    (hx : disk'.resolve .target path.text = .ok (.found place (.file b))) :
    disk.resolve .target path.text = .ok (.found place (.file b)) := by
  obtain ⟨moment, hmoment, hleft⟩ := replaceFile_error h
  have hsound : moment.Sound := by
    rcases hmoment with rfl | ⟨hwrite, -⟩
    · exact hdisk
    · exact hdisk.write hwrite
  have hfound : moment.resolve .target path.text = .ok (.found place (.file b)) := by
    rcases hleft with rfl | hremove
    · exact hx
    · exact Disk.found_before_removal hsound hremove hx
  rcases hmoment with rfl | ⟨hwrite, g, hmove⟩
  · exact hfound
  · -- the file that was written could have been moved to that one
    obtain ⟨_, hmoves⟩ := moves_to_file hsound.grounded hp hslash hlong hbeside (entry_of_written hdisk.grounded hwrite) hfound
    cases hmove.symm.trans hmoves

end FileWork

end ActionSweep
