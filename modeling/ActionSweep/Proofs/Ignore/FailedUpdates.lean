/-
Updates of a list that cannot be saved. The file of the list stays as it was, wherever saving it fails: what can fail
before the file is replaced makes folders only, and what is removed afterwards is the file beside it. The keys in memory
stay changed, so the same update is skipped when it is tried again, and is not in the file then either.
-/
import ActionSweep.Proofs.Files.Failing
import ActionSweep.Proofs.Ignore.Agreement

namespace ActionSweep

open Dir (GainsFolders)
open Outcome (left work_bind_error)

variable {disk disk' : Disk} {p : Path}

/-! ## The file of a list -/

/-- A path leads to no other file than it did: files it led to stay where they are, and those it leads to are not new. -/
structure FileKept (p : Path) (disk disk' : Disk) : Prop where
  stays : ∀ {place b}, disk.resolve .target p.text = .ok (.found place (.file b)) → disk'.root.find? place = some (.file b)
  stood : ∀ {place b}, disk'.resolve .target p.text = .ok (.found place (.file b)) → disk.root.find? place = some (.file b)

namespace FileWork

/-- Whatever comes of making a folder, nothing but folders is gained. -/
theorem ensureFolder_gains (p : Path) (disk : Disk) :
    GainsFolders (fun _ => True) disk.root (left (ensureFolder p disk)).root := by
  have hreaches : Relation.ReflTransGen (fun d d' : Disk => GainsFolders (fun _ => True) d.root d'.root) disk
      (left (ensureFolder p disk)) := by
    refine makeFolders_reaches (fun _ h => ?_) _ disk ⟨rfl, List.prefix_refl p.parts⟩
    obtain ⟨place, hfree, rfl⟩ := Disk.makeFolder_ok h
    exact (Dir.gainsFolders_putAt hfree).mono fun _ _ => trivial
  generalize left (ensureFolder p disk) = last at hreaches
  induction hreaches with
  | refl => exact Dir.gainsFolders_refl _ _
  | tail _ hstep ih => exact ih.trans hstep

end FileWork

namespace IgnoreList

variable {l : IgnoreList} {now : Stamp} {f : Fault}

/-- A save that fails made folders at most, or could not replace the file once they were there. -/
theorem save_error (h : l.save now disk = .error f disk') : ∃ moment,
    left (FileWork.ensureFolder l.path.parent disk) = moment ∧
      (disk' = moment ∨ ∃ beside, l.path.withExtension? ".tmp" = some beside ∧
        FileWork.ensureFolder l.path.parent disk = .ok () moment ∧
        FileWork.replaceFile beside l.path (Json.render (l.toValue now)) moment = .error f disk') := by
  rcases work_bind_error.1 h with hfolder | ⟨_, moment, hfolder, h⟩
  · exact ⟨disk', by rw [hfolder]; rfl, .inl rfl⟩
  · refine ⟨moment, by rw [hfolder]; rfl, ?_⟩
    cases hbeside : l.path.withExtension? ".tmp" with
    | none =>
      rw [hbeside] at h
      cases h
      exact .inl rfl
    | some beside =>
      rw [hbeside] at h
      exact .inr ⟨beside, rfl, hfolder, h⟩

/-- A list that cannot be saved has the file it had. -/
theorem save_fails (hpath : l.path.Normal) (hdisk : disk.Sound) (h : l.save now disk = .error f disk') :
    FileKept l.path disk disk' := by
  obtain ⟨moment, hleft, h⟩ := save_error h
  have hgains := FileWork.ensureFolder_gains l.path.parent disk
  rw [hleft] at hgains
  rcases h with rfl | ⟨beside, hbeside, hfolder, hreplace⟩
  · exact ⟨fun hx => hgains.file_iff.2 (Disk.resolve_stands hx), fun hx => hgains.file_iff.1 (Disk.resolve_stands hx)⟩
  · refine ⟨fun hx => ?_, fun hx => ?_⟩
    · -- the folder of the file is there, so none was made
      have hparts : l.path.parts ≠ [] := by
        intro hnil
        rw [Path.withExtension?, Path.name?, hnil] at hbeside
        cases hbeside
      obtain ⟨spot, d, hparent⟩ := FileWork.parent_there hdisk.grounded hpath hx hparts
      rw [FileWork.ensureFolder_there hparent] at hfolder
      cases hfolder
      have hnot := (FileWork.replaceFile_fails hdisk.grounded hpath (by decide) (by decide) (by decide) hbeside hx hreplace).2
      exact hnot.file (Disk.resolve_stands hx)
    · have hmoment := sound_ensureFolder hdisk hfolder
      have hfound := FileWork.replaceFile_finds_old hmoment hpath (by decide) (by decide) hbeside hreplace hx
      exact hgains.file_iff.1 (Disk.resolve_stands hfound)

/-! ## Keys -/

theorem isIgnored_added (l : IgnoreList) (t : Text) : (l.added (.text t)).isIgnored (.text t) = true :=
  isIgnored_text.2 (List.mem_append_right _ (List.mem_singleton.2 rfl))

/-- A key that was there once is gone when it was removed. -/
theorem isIgnored_removed {t : Text} (h : l.keys.Nodup) : (l.removed (.text t)).isIgnored (.text t) = false := by
  rw [Bool.eq_false_iff, ne_eq, isIgnored_text]
  intro hmem
  obtain ⟨v, front, rest, -, hv, hkeys, herased⟩ :=
    List.exists_of_eraseP (p := (·.same (.text t))) (List.eraseP_sublist.subset hmem) (Value.same_text.2 rfl)
  obtain rfl := Value.same_text.1 hv
  rw [hkeys] at h
  rw [removed, herased] at hmem
  exact (List.nodup_cons.1 (List.nodup_middle.1 h)).1 hmem

end IgnoreList

/-! ## Updates -/

namespace IgnoreWork

variable {k k' : KeptList} {now : Stamp} {f : Fault}

theorem save_fails (hpath : k.list.path.Normal) (hdisk : k.disk.Sound) (h : save now k = .error f k') :
    k'.list = k.list ∧ FileKept k.list.path k.disk k'.disk := by
  unfold save at h
  split at h
  · cases h
  · rename_i hsave
    cases h
    exact ⟨rfl, IgnoreList.save_fails hpath hdisk hsave⟩

/-- Where a key cannot be added or removed the file of the list stays as it was and the keys in memory do not. An added key
is there for every later call, and a removed one is missing if it was there once, so doing it again does nothing,
whatever has become of the files. -/
theorem failed_update_not_undone (hdisk : disk.Sound) (path key : Text) (keys : List Value) :
    (add (.text key) now ⟨⟨Path.ofText path, keys⟩, disk⟩ = .error f k → .text key ∉ keys ∧
      k.list = ⟨Path.ofText path, keys ++ [.text key]⟩ ∧ FileKept (Path.ofText path) disk k.disk ∧
      ∀ later moment, add (.text key) later ⟨k.list, moment⟩ = .ok () ⟨k.list, moment⟩) ∧
    (remove (.text key) now ⟨⟨Path.ofText path, keys⟩, disk⟩ = .error f k → .text key ∈ keys ∧
      k.list = ⟨Path.ofText path, keys.eraseP (·.same (.text key))⟩ ∧ FileKept (Path.ofText path) disk k.disk ∧
      (keys.Nodup → ∀ later moment, remove (.text key) later ⟨k.list, moment⟩ = .ok () ⟨k.list, moment⟩)) := by
  have hpath := Path.normal_ofText path
  refine ⟨fun h => ?_, fun h => ?_⟩
  · rw [add_eq] at h
    split at h
    · cases h
    · rename_i hnew
      obtain ⟨hlist, hfile⟩ := save_fails hpath hdisk h
      refine ⟨fun hmem => hnew (IgnoreList.isIgnored_text.2 hmem), hlist, hfile, fun later moment => ?_⟩
      rw [add_eq, hlist, if_pos (IgnoreList.isIgnored_added _ key)]
  · rw [remove_eq] at h
    split at h
    · rename_i hthere
      obtain ⟨hlist, hfile⟩ := save_fails hpath hdisk h
      refine ⟨IgnoreList.isIgnored_text.1 hthere, hlist, hfile, fun hnodup later moment => ?_⟩
      rw [remove_eq, hlist, IgnoreList.isIgnored_removed hnodup, if_neg Bool.false_ne_true]
    · cases h

end IgnoreWork

namespace Sample

/-- A list of one key, with a folder where the file is written before it is moved into place. -/
def blockedDisk : Disk := keptDisk (.folder "l.tmp" .empty .empty)

def oneKey : IgnoreList := ⟨Path.ofText listPath, [.text "b"]⟩

end Sample

namespace IgnoreWork

theorem sample_failed_update_not_undone :
    Sample.blockedDisk.Sound ∧
      (∃ f k, add (.text "a") Sample.now ⟨Sample.oneKey, Sample.blockedDisk⟩ = .error f k ∧
        k.list.keys = [.text "b", .text "a"] ∧ FileKept (Path.ofText Sample.listPath) Sample.blockedDisk k.disk ∧
        add (.text "a") Sample.now ⟨k.list, Sample.keptDisk .empty⟩ = .ok () ⟨k.list, Sample.keptDisk .empty⟩) ∧
      ∃ f k, remove (.text "b") Sample.now ⟨Sample.oneKey, Sample.blockedDisk⟩ = .error f k ∧ k.list.keys = [] ∧
        remove (.text "b") Sample.now ⟨k.list, Sample.keptDisk .empty⟩ = .ok () ⟨k.list, Sample.keptDisk .empty⟩ := by
  have hdisk : Sample.blockedDisk.Sound := ⟨⟨_, rfl⟩, by decide +kernel⟩
  obtain ⟨f, k, hadd, -⟩ : ∃ f k,
      add (.text "a") Sample.now ⟨Sample.oneKey, Sample.blockedDisk⟩ = .error f k ∧ True :=
    Outcome.failed_of_check (by decide +kernel)
  obtain ⟨f', k', hremove, -⟩ : ∃ f k,
      remove (.text "b") Sample.now ⟨Sample.oneKey, Sample.blockedDisk⟩ = .error f k ∧ True :=
    Outcome.failed_of_check (by decide +kernel)
  obtain ⟨-, hlist, hfile, hagain⟩ := (failed_update_not_undone hdisk _ _ _).1 hadd
  obtain ⟨-, hlist', -, hagain'⟩ := (failed_update_not_undone hdisk _ _ _).2 hremove
  exact ⟨hdisk, ⟨f, k, hadd, by rw [hlist]; rfl, hfile, hagain _ _⟩, f', k', hremove, by rw [hlist']; rfl,
    hagain' (List.nodup_singleton _) _ _⟩

/-- A key that could not be added is in memory but not in the file, and adding it once more changes neither, even though
nothing is in the way any more. -/
theorem failed_add_skipped_again : ∃ f k fresh,
    add (.text "a") Sample.now ⟨Sample.oneKey, Sample.blockedDisk⟩ = .error f k ∧ f.isFile = true ∧
      Sample.oneKey.isIgnored (.text "a") = false ∧ k.list.isIgnored (.text "a") = true ∧
      add (.text "a") Sample.now ⟨k.list, Sample.keptDisk .empty⟩ = .ok () ⟨k.list, Sample.keptDisk .empty⟩ ∧
      Sample.oneKey.load (Sample.keptDisk .empty) = .ok fresh ∧ fresh.isIgnored (.text "a") = false := by
  obtain ⟨f, k, hadd, hfile, hthere⟩ : ∃ f k,
      add (.text "a") Sample.now ⟨Sample.oneKey, Sample.blockedDisk⟩ = .error f k ∧ f.isFile = true ∧
        k.list.isIgnored (.text "a") = true := Outcome.failed_of_check (by decide +kernel)
  obtain ⟨fresh, hload, hmissing⟩ : ∃ l, Sample.oneKey.load (Sample.keptDisk .empty) = .ok l ∧
      l.isIgnored (.text "a") = false := Outcome.ok_of_check (by decide +kernel)
  exact ⟨f, k, fresh, hadd, hfile, by decide +kernel, hthere, by rw [add_eq, if_pos hthere], hload, hmissing⟩

end IgnoreWork

end ActionSweep
