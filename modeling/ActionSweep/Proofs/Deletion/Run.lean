/-
Deleting files without keeping copies: if every path leads to a file, no error is noted, every path is
reported as deleted, and the file tree is what it was without these files.
-/
import ActionSweep.Proofs.Files.Removal

namespace ActionSweep

namespace Disk

variable {disk : Disk}

theorem without_without (g h : List Text → Bool) :
    (disk.without g).without h = disk.without fun p => g p || h p := by
  unfold without setRoot
  rw [Dir.drop_drop]

theorem without_nothing (h : disk.root.WellFormed) : disk.without (fun _ => false) = disk := by
  unfold without setRoot
  rw [Dir.drop_eq_self h fun _ _ _ _ => rfl]

theorem wellFormed_without {gone : List Text → Bool} (h : disk.root.WellFormed) :
    (disk.without gone).root.WellFormed := h.drop

/-- Removing a file leaves what is left without it. -/
theorem removeFile_eq {path : Text} {place : List Text} {b : Bytes} (hroot : disk.root.WellFormed)
    (hfind : disk.root.find? place = some (.file b))
    (h : disk.resolve .entry path = .ok (.found place (.file b))) :
    disk.removeFile path = .ok (disk.without fun p => decide (p = place)) := by
  unfold removeFile
  rw [h]
  have herase : disk.root.eraseAt place = disk.root.drop (fun p => decide (p = [] ++ place)) [] :=
    Dir.eraseAt_eq_drop hroot hfind
  show Except.ok (disk.setRoot (disk.root.eraseAt place)) = _
  rw [herase]
  rfl

end Disk

namespace Deletion

/-! ## One file -/

variable {project : Path} {path : Text} {disk disk' : Disk}

theorem deleteOne_missing (h : disk.present (project.under path).text = .ok false) :
    deleteOne project none false path disk = .ok .missing disk := by
  simp only [deleteOne, bind, EStateM.bind, FileWork.ask, h]
  rfl

theorem deleteOne_direct (h : disk.present (project.under path).text = .ok true)
    (hremove : disk.removeFile (project.under path).text = .ok disk') :
    deleteOne project none false path disk = .ok (.direct none) disk' := by
  have hnoting : noting (FileWork.change (·.removeFile (project.under path).text)) disk = .ok none disk' := by
    simp only [noting, FileWork.change, hremove]
  simp only [deleteOne, bind, EStateM.bind, FileWork.ask, h, Bool.not_true, Bool.false_eq_true, if_false,
    hnoting]
  rfl

/-- A path below the project that leads to a file at a place. -/
def LeadsToFile (disk : Disk) (project : Path) (place : List Text) (path : Text) : Prop :=
  ∃ b, disk.resolve .entry (project.under path).text = .ok (.found place (.file b))

/-- A file is deleted, unless it was removed before. -/
theorem deleteOne_step (hroot : disk.root.WellFormed) (hproject : project.Normal) {place : List Text}
    (gone : List Text → Bool) (h : LeadsToFile disk project place path) :
    deleteOne project none false path (disk.without gone) =
      if gone place then .ok .missing (disk.without gone)
      else .ok (.direct none) (disk.without fun p => gone p || decide (p = place)) := by
  obtain ⟨b, hentry⟩ := h
  have hnormal := hproject.under path
  rcases hg : gone place
  · have hentry' := Disk.resolve_file_without hroot (by decide) hentry hg
    have hstands : (disk.without gone).root.find? place = some (.file b) :=
      Disk.resolveParts_found ((Disk.resolve_text_ok hnormal).1 hentry').2
    rw [if_neg (by decide), ← Disk.without_without]
    refine deleteOne_direct ?_ (Disk.removeFile_eq (Disk.wellFormed_without hroot) hstands hentry')
    unfold Disk.present Disk.test
    rw [Disk.resolve_entry hnormal hentry']
  · rw [if_pos rfl]
    exact deleteOne_missing (Disk.present_of_gone hroot (Disk.resolve_entry hnormal hentry) hg)

/-! ## All files -/

/-- Deletes one more file and notes what became of it. -/
def deleteNext (project : Path) (r : DeletionReport) (path : Text) : FileWork DeletionReport := do
  return note r path (← deleteOne project none false path)

/-- What a run over files has noted and left: no faults, and every file reported and removed. -/
structure Done (disk : Disk) (spot : Text → List Text) (gone : List Text → Bool) (files : List Text)
    (r r' : DeletionReport) (disk' : Disk) : Prop where
  errors : r'.errors = r.errors
  kept : ∀ f ∈ r.deleted, f ∈ r'.deleted
  deleted : ∀ f ∈ files, f ∈ r'.deleted
  left : disk' = disk.without fun p => gone p || files.any fun f => decide (p = spot f)

/-- A run over files that stand at places of their own, some of which may be removed already. -/
theorem delete_steps (hroot : disk.root.WellFormed) (hproject : project.Normal) {spot : Text → List Text} :
    ∀ (files : List Text) (gone : List Text → Bool) (r : DeletionReport),
      (∀ f ∈ files, LeadsToFile disk project (spot f) f) →
      (∀ f ∈ files, ∀ g ∈ files, spot f = spot g → f = g) →
      (∀ f ∈ files, gone (spot f) = true → f ∈ r.deleted) →
      ∃ r' disk', files.foldlM (deleteNext project) r (disk.without gone) = .ok r' disk' ∧
        Done disk spot gone files r r' disk'
  | [], gone, r, _, _, _ => ⟨r, _, rfl, rfl, fun _ h => h, by simp, by simp⟩
  | f :: files, gone, r, hleads, hspots, hgone => by
    have hf := deleteOne_step hroot hproject gone (hleads f (List.mem_cons_self ..))
    have hleads' : ∀ g ∈ files, LeadsToFile disk project (spot g) g :=
      fun g hg => hleads g (List.mem_cons_of_mem f hg)
    have hspots' : ∀ g ∈ files, ∀ k ∈ files, spot g = spot k → g = k :=
      fun g hg k hk => hspots g (List.mem_cons_of_mem f hg) k (List.mem_cons_of_mem f hk)
    rw [List.foldlM_cons]
    split at hf
    · rename_i hg
      -- the file was named before and is missing now, so it is in the report already
      have hnoted : f ∈ r.deleted := hgone f (List.mem_cons_self ..) hg
      obtain ⟨r', disk', hrun, hdone⟩ := delete_steps hroot hproject files gone (note r f .missing) hleads'
        hspots' fun g hg => hgone g (List.mem_cons_of_mem f hg)
      refine ⟨r', disk', ?_, hdone.errors, hdone.kept, fun g hg => ?_, ?_⟩
      · simp only [deleteNext, bind, EStateM.bind, hf]
        exact hrun
      · rcases List.mem_cons.1 hg with rfl | hg
        · exact hdone.kept _ hnoted
        · exact hdone.deleted g hg
      · rw [hdone.left]
        congr 1
        funext p
        rw [List.any_cons]
        by_cases hp : p = spot f
        · subst hp; simp [hg]
        · simp [hp]
    -- from here on the place of this file counts as removed too
    · obtain ⟨r', disk', hrun, hdone⟩ := delete_steps hroot hproject files
        (fun p => gone p || decide (p = spot f)) (note r f (.direct none)) hleads' hspots' fun g hg hgg => by
          rcases Bool.or_eq_true_iff.1 hgg with hgg | hgg
          · exact List.mem_append_left _ (hgone g (List.mem_cons_of_mem f hg) hgg)
          · rw [hspots g (List.mem_cons_of_mem f hg) f (List.mem_cons_self ..) (of_decide_eq_true hgg)]
            exact List.mem_append_right _ (List.mem_singleton_self f)
      refine ⟨r', disk', ?_, hdone.errors, fun g hg => hdone.kept g (List.mem_append_left _ hg), fun g hg => ?_, ?_⟩
      · simp only [deleteNext, bind, EStateM.bind, hf]
        exact hrun
      · rcases List.mem_cons.1 hg with rfl | hg
        · exact hdone.kept _ (List.mem_append_right _ (List.mem_singleton_self _))
        · exact hdone.deleted g hg
      · rw [hdone.left]
        congr 1
        funext p
        rw [List.any_cons, Bool.or_assoc]

/-- Deleting files that stand at places of their own removes them all, without a fault. -/
theorem delete_ok (hroot : disk.root.WellFormed) (hproject : project.Normal) (spot : Text → List Text)
    {files : List Text} (hleads : ∀ f ∈ files, LeadsToFile disk project (spot f) f)
    (hspots : ∀ f ∈ files, ∀ g ∈ files, spot f = spot g → f = g) :
    ∃ report, delete project none false files disk =
        .ok report (disk.without fun p => files.any fun f => decide (p = spot f)) ∧
      report.errors = [] ∧ ∀ f ∈ files, f ∈ report.deleted := by
  obtain ⟨r', disk', hrun, hdone⟩ := delete_steps hroot hproject files (fun _ => false)
    ⟨[], [], [], [], false⟩ hleads hspots (by rintro f _ ⟨⟩)
  rw [Disk.without_nothing hroot] at hrun
  refine ⟨r', ?_, hdone.errors, hdone.deleted⟩
  rw [show (fun p => files.any fun f => decide (p = spot f)) =
    fun p => false || files.any fun f => decide (p = spot f) from rfl, ← hdone.left]
  exact hrun

end Deletion

end ActionSweep
