/-
Deleting the files of declared actions. Each of them is a JSON file of the project and leads to its
place, so all of them can be deleted, and what is left is the file tree without them.
-/
import ActionSweep.Proofs.Deletion.Run
import ActionSweep.Proofs.Scan.Rescan

namespace ActionSweep

variable {disk : Disk} {project : Path} {place : List Text} {tree : Dir}

/-- The file of a declared action is a JSON file of the project and leads to its place. -/
theorem Scan.isJsonFile_of_mem_declared (hp : disk.HasProject project place tree) {dirs : List Text}
    (hdots : ∀ dir ∈ dirs, (['.', '.'] : Text) ∉ Path.partsOf dir) {a : Action}
    (ha : a ∈ (declared dirs disk project).actions) :
    IsJsonFile tree a.file ∧ Deletion.LeadsToFile disk project (place ++ Path.partsOf a.file) a.file := by
  obtain ⟨hpath, hdeclares, -⟩ := file_of_mem_declared ha
  obtain ⟨spot, b, hr⟩ := Disk.found_of_readJson (Disk.readJson_of_declares hdeclares)
  obtain ⟨hfile, hspot, hext⟩ := leads_of_mem_actionPaths hp hdots hpath hr
  obtain ⟨c, hc⟩ := hfile.stands
  refine ⟨⟨hfile, hext⟩, c, ?_⟩
  refine (Disk.resolve_text_ok (hp.normal.under a.file)).2 ⟨((Disk.resolve_text_ok (hp.normal.under a.file)).1 hr).1, ?_⟩
  rw [hfile.under]
  exact (hp.leads_iff (by decide) hfile.nonempty hfile.descends).2 ⟨rfl, hc⟩

namespace Scanner

variable {s : Scanner} {r : ScanResult} {dirs : List Text}

theorem file_of_action (hp : disk.HasProject s.project place tree) (hscan : (s.scan disk).1 = .ok r)
    (hdirs : s.config.actionDirs = .ok dirs) (hdots : ∀ dir ∈ dirs, (['.', '.'] : Text) ∉ Path.partsOf dir)
    {a : Action} (ha : a ∈ r.actions) :
    IsJsonFile tree a.file ∧ Deletion.LeadsToFile disk s.project (place ++ Path.partsOf a.file) a.file := by
  obtain ⟨b, hb, hfile, -⟩ := declared_of_mem hscan hdirs ha
  have := Scan.isJsonFile_of_mem_declared hp hdots hb
  rwa [hfile] at this

/-- The files of actions can be deleted. -/
theorem delete_actions (hp : disk.HasProject s.project place tree) (hscan : (s.scan disk).1 = .ok r)
    (hdirs : s.config.actionDirs = .ok dirs) (hdots : ∀ dir ∈ dirs, (['.', '.'] : Text) ∉ Path.partsOf dir)
    {doomed : List Action} (hdoomed : ∀ a ∈ doomed, a ∈ r.actions) :
    ∃ report, Deletion.delete s.project none false (doomed.map (·.file)) disk =
        .ok report (disk.withoutFiles place (doomed.map (·.file))) ∧
      report.errors = [] ∧ ∀ a ∈ doomed, a.file ∈ report.deleted := by
  have hfiles : ∀ f ∈ doomed.map (·.file), IsJsonFile tree f ∧
      Deletion.LeadsToFile disk s.project (place ++ Path.partsOf f) f := by
    intro f hf
    obtain ⟨a, ha, rfl⟩ := List.mem_map.1 hf
    exact file_of_action hp hscan hdirs hdots (hdoomed a ha)
  obtain ⟨report, hdelete, herrors, hreported⟩ := Deletion.delete_ok
    hp.wellFormed hp.normal (fun f => place ++ Path.partsOf f) (fun f hf => (hfiles f hf).2)
    fun f hf g hg he => (hfiles f hf).1.1.ext (hfiles g hg).1.1 (List.append_cancel_left he)
  exact ⟨report, hdelete, herrors, fun a ha => hreported _ (List.mem_map_of_mem ha)⟩

end Scanner

end ActionSweep
