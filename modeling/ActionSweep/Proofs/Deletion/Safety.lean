/-
Deleting actions that are safe to delete is safe: the project can be scanned again, every other action
is still declared by the same file, nothing gains a reference, and no key that an action had becomes
unresolved. The action folders must not be named with two dots, and none may lie so far above the
project that the search for folders without files starts outside it.
-/
import ActionSweep.Proofs.Deletion.Actions
import ActionSweep.Proofs.Sample
import ActionSweep.Proofs.Scan.EmptyFolders
import Mathlib.Data.List.Flatten

namespace ActionSweep

open Finding (naming)
open Scanner (Completed finalIndex)

/-! ## The rescan ends well -/

variable {disk : Disk} {project : Path} {place : List Text} {tree : Dir} {lost : List Text}

/-- What a scan needs is there without some JSON files if it was there with them. -/
theorem Scanner.completed_without {config : ScanConfig} {dirs : List Text} {candidates : List (Text × Category)}
    {folders : List EmptyFolder} (hp : disk.HasProject project place tree)
    (hlost : ∀ f ∈ lost, IsJsonFile tree f)
    (hdots : ∀ dir ∈ dirs, (['.', '.'] : Text) ∉ Path.partsOf dir)
    (hfar : ∀ dir ∈ dirs, ¬ (project.under dir).FarAbove project)
    (h : Completed config disk project dirs candidates folders) :
    ∃ folders', Completed config (disk.withoutFiles place lost) project dirs
      (candidates.filter fun c => Candidate.remains disk project (placesOf place lost) c.1) folders' := by
  have hfiles := fun f hf => (hlost f hf).1
  have hd := h.discoverable
  obtain ⟨folders', hfolders⟩ := EmptyFolders.find_without hp hlost hfar hd.lists ⟨folders, h.folders_eq⟩
  refine ⟨folders', ⟨hd.dirs_eq, fun dir hdir => ?_, ?_, fun dir hdir hf => ?_, fun path hpath => ?_⟩,
    Candidate.all_without hp.wellFormed hp.normal h.candidates_eq, fun c hc => ?_, hfolders⟩
  · rw [Disk.isFolder_without hp.wellFormed]
    exact hd.asks dir hdir
  · obtain ⟨dir, hdir, hf⟩ := hd.exists_folder
    exact ⟨dir, hdir, by rw [Disk.leadsToFolder_without hp.wellFormed, hf]⟩
  · rw [Disk.leadsToFolder_without hp.wellFormed] at hf
    obtain ⟨files, hlist⟩ := hd.lists dir hdir hf
    exact ⟨_, Scan.actionFiles_without hp hfiles (hdots dir hdir) hlist⟩
  · rw [Scan.actionPaths_without hp hfiles hdots hd.lists, List.mem_filter] at hpath
    have hstays : path ∉ lost := by simpa using hpath.2
    exact Scan.readable_without hp.wellFormed (Scan.stays_of_mem_actionPaths hp hfiles hdots hpath.1 hstays)
      (hd.readable path hpath.1)
  · obtain ⟨hc, hr⟩ := List.mem_filter.1 hc
    exact Scan.searchable_without hp.wellFormed (Candidate.spared_of_remains hp.wellFormed hp.normal hr)
      (h.searchable c hc)

/-- What the remaining candidates say is part of what all candidates said, in the same order. -/
theorem Scan.findings_without (hp : disk.HasProject project place tree) (config : ScanConfig)
    (candidates : List (Text × Category)) :
    ((candidates.filter fun c => Candidate.remains disk project (placesOf place lost) c.1).flatMap
        (findingsIn config (disk.withoutFiles place lost) project)).Sublist
      (candidates.flatMap (findingsIn config disk project)) := by
  have hsame : (candidates.filter fun c => Candidate.remains disk project (placesOf place lost) c.1).flatMap
        (findingsIn config (disk.withoutFiles place lost) project) =
      (candidates.filter fun c => Candidate.remains disk project (placesOf place lost) c.1).flatMap
        (findingsIn config disk project) := by
    refine List.flatMap_congr fun c hc => ?_
    unfold findingsIn
    rw [referencesIn_without hp.wellFormed config
      (Candidate.spared_of_remains hp.wellFormed hp.normal (List.mem_filter.1 hc).2)]
  rw [hsame]
  exact List.filter_sublist.flatMap _

/-! ## Safety -/

/-- How a result relates to the one of a rescan after some actions were deleted. -/
structure ScanResult.Survives (r r' : ScanResult) (deleted : List Action) : Prop where
  /-- Every other action is declared from the same file and has no new references. -/
  actions : ∀ a ∈ r.actions, a ∉ deleted → ∃ a' ∈ r'.actions, a'.key = a.key ∧ a'.file = a.file ∧
    a'.content = a.content ∧ a'.references.Sublist a.references
  /-- Every unresolved list was one before, with the same references at least. -/
  unresolved : ∀ e' ∈ r'.unresolved, ∃ e ∈ r.unresolved, e'.1 = e.1 ∧ e'.2.Sublist e.2
  /-- No key that an action had is unresolved. -/
  resolved : ∀ a ∈ r.actions, ∀ e' ∈ r'.unresolved, e'.1 ≠ a.key

namespace Index

/-- Two indexes and what is recorded in them: the second one has lost some actions that nothing names, and
fewer findings are recorded in it. -/
structure Thinned (i i' : Index) (found found' : List Finding) (deleted : List Action) : Prop where
  before : i.Fresh
  after : i'.Fresh
  fewer : found'.Sublist found
  unnamed : ∀ a ∈ deleted, a ∈ (i.recordAll found).actions ∧ a.references = []
  kept : ∀ b ∈ i.actions, (∀ a ∈ deleted, a.key ≠ b.key) → b ∈ i'.actions

variable {i i' : Index} {found found' : List Finding} {deleted : List Action}

/-- What is unresolved in the second index was no key of the first one. -/
theorem Thinned.unknown (h : Thinned i i' found found' deleted) {e' : Text × List Reference}
    (he' : e' ∈ (i'.recordAll found').unresolved) : i.contains e'.1 = false := by
  obtain ⟨hrefs, hne, hclosed⟩ := (mem_recordAll_unresolved h.after.nothing).1 he'
  by_contra hc
  rw [Bool.not_eq_false, contains_iff] at hc
  obtain ⟨b, hb, hk⟩ := List.mem_map.1 hc
  by_cases hgone : ∃ a ∈ deleted, a.key = b.key
  · -- nothing named the key of a deleted action before, so nothing names it now
    obtain ⟨a, ha, hak⟩ := hgone
    obtain ⟨hmem, hnone⟩ := h.unnamed a ha
    have hsub := Finding.naming_sublist h.fewer a.key
    rw [← h.before.references hmem, hnone, List.sublist_nil, hak] at hsub
    rw [← hk] at hrefs
    exact hne (hrefs.trans hsub)
  · push Not at hgone
    have := contains_iff.2 (List.mem_map_of_mem (f := Action.key) (h.kept b hb hgone))
    rw [hk] at this
    rw [this] at hclosed
    cases hclosed

/-- An action that was not deleted is declared in the second index. -/
theorem Thinned.declared (h : Thinned i i' found found' deleted) {b : Action} (hb : b ∈ i.actions)
    (hno : attached (naming found) b ∉ deleted) : b ∈ i'.actions := by
  refine h.kept b hb fun c hc hck => hno ?_
  -- keys are distinct, so a deleted action with the same key would be this one
  have hkeys : ((i.recordAll found).actions.map (·.key)).Nodup := recordAll_keys found i ▸ h.before.keys
  have hmem : attached (naming found) b ∈ (i.recordAll found).actions := by
    rw [recordAll_actions]
    exact List.mem_map_of_mem hb
  rw [← List.inj_on_of_nodup_map hkeys (h.unnamed c hc).1 hmem hck]
  exact hc

theorem Thinned.survives (h : Thinned i i' found found' deleted) {r r' : ScanResult}
    (hr : r.actions = rank (i.recordAll found).actions ∧ r.unresolved = (i.recordAll found).unresolved)
    (hr' : r'.actions = rank (i'.recordAll found').actions ∧ r'.unresolved = (i'.recordAll found').unresolved) :
    r.Survives r' deleted := by
  constructor
  case actions =>
    intro a ha hno
    rw [hr.1, mem_rank] at ha
    have hrefs := h.before.references ha
    rw [recordAll_actions] at ha
    obtain ⟨b, hb, rfl⟩ := List.mem_map.1 ha
    have ha' : attached (naming found') b ∈ (i'.recordAll found').actions := by
      rw [recordAll_actions]
      exact List.mem_map_of_mem (h.declared hb hno)
    refine ⟨attached (naming found') b, ?_, rfl, rfl, rfl, ?_⟩
    · rw [hr'.1]
      exact mem_rank.2 ha'
    · rw [h.after.references ha', hrefs]
      exact Finding.naming_sublist h.fewer b.key
  case unresolved =>
    intro e' he'
    rw [hr'.2] at he'
    obtain ⟨hrefs, hne, -⟩ := (mem_recordAll_unresolved h.after.nothing).1 he'
    have hunknown := h.unknown he'
    have hsub := Finding.naming_sublist h.fewer e'.1
    rw [← hrefs] at hsub
    refine ⟨(e'.1, naming found e'.1), ?_, rfl, hsub⟩
    rw [hr.2, mem_recordAll_unresolved h.before.nothing]
    refine ⟨rfl, fun hnil => hne ?_, hunknown⟩
    rw [show naming found e'.1 = [] from hnil] at hsub
    exact List.sublist_nil.1 hsub
  case resolved =>
    intro a ha e' he' hk
    rw [hr.1, mem_rank, recordAll_actions] at ha
    rw [hr'.2] at he'
    obtain ⟨b, hb, rfl⟩ := List.mem_map.1 ha
    have := contains_iff.2 (List.mem_map_of_mem (f := Action.key) hb)
    rw [show b.key = e'.1 from hk.symm, h.unknown he'] at this
    cases this

end Index

/-- After actions that are safe to delete were deleted, the project can be scanned again, and what is
left of it stands as it did. -/
theorem deletion_safe {s : Scanner} {dirs : List Text} {r : ScanResult} {doomed : List Action}
    (hp : disk.HasProject s.project place tree) (hdirs : s.config.actionDirs = .ok dirs)
    (hdots : ∀ dir ∈ dirs, (['.', '.'] : Text) ∉ Path.partsOf dir)
    (hfar : ∀ dir ∈ dirs, ¬ (s.project.under dir).FarAbove s.project)
    (hscan : (s.scan disk).1 = .ok r)
    (hdoomed : ∀ a ∈ doomed, a ∈ r.actions ∧ a.confidence = .safeToDelete) :
    ∃ report disk' r', Deletion.delete s.project none false (doomed.map (·.file)) disk = .ok report disk' ∧
      report.errors = [] ∧ (∀ a ∈ doomed, a.file ∈ report.deleted) ∧
      ((s.scan disk).2.scan disk').1 = .ok r' ∧ r.Survives r' doomed := by
  have hmem : ∀ a ∈ doomed, a ∈ r.actions := fun a ha => (hdoomed a ha).1
  have hjson : ∀ f ∈ doomed.map (·.file), IsJsonFile tree f := by
    intro f hf
    obtain ⟨a, ha, rfl⟩ := List.mem_map.1 hf
    exact (Scanner.file_of_action hp hscan hdirs hdots (hmem a ha)).1
  obtain ⟨report, hdelete, herrors, hreported⟩ := Scanner.delete_actions hp hscan hdirs hdots hmem
  obtain ⟨dirs₁, candidates, folders, hc, hactions, hunresolved, -, hstate⟩ := Scanner.scan_ok hscan
  obtain rfl := hc.dirs_unique hdirs
  have hsafe : ∀ a ∈ doomed, a ∈ (finalIndex s.config disk s.project dirs candidates).actions ∧
      a.references = [] := by
    intro a ha
    obtain ⟨hmem, hconf⟩ := hdoomed a ha
    rw [hactions, mem_rank] at hmem
    exact ⟨hmem, Action.safe_iff.1 hconf⟩
  obtain ⟨folders', hc'⟩ := Scanner.completed_without hp hjson hdots hfar hc
  obtain ⟨r', hr'⟩ := Scanner.scan_runs (s := s.moved .classified) (.inr (.inl rfl)) hc'
  refine ⟨report, disk.withoutFiles place (doomed.map Action.file), r', hdelete, herrors, hreported,
    by rw [hstate]; exact hr', ?_⟩
  obtain ⟨dirs₂, candidates', _, hc'', hactions', hunresolved', -, -⟩ := Scanner.scan_ok hr'
  obtain rfl := hc''.dirs_unique hdirs
  obtain rfl := Except.ok.inj (hc''.candidates_eq.symm.trans hc'.candidates_eq)
  refine Index.Thinned.survives ⟨Scan.declared_fresh _ _ _, Scan.declared_fresh _ _ _,
    Scan.findings_without hp s.config candidates, hsafe, fun b hb hkey => ?_⟩
    ⟨hactions, hunresolved⟩ ⟨hactions', hunresolved'⟩
  refine Scan.mem_declared_without hp (fun f hf => (hjson f hf).1) hdots hc.discoverable.lists hb fun f hf he => ?_
  obtain ⟨a, ha, rfl⟩ := List.mem_map.1 hf
  obtain ⟨c, hc, hfile, hk, -⟩ := Scanner.declared_of_mem hscan hdirs (hmem a ha)
  refine hkey a ha ?_
  rw [← he, ← hk, ← (Scan.file_of_mem_declared hc).2.2, hfile]

/-- In the sample project the action that nothing names can be deleted, and the one it calls stays. -/
theorem sample_deletion_safe :
    ∃ r report disk' r', (Sample.scanner.scan Sample.disk).1 = .ok r ∧
      (r.withConfidence .safeToDelete).map (·.file) = ["app/api/a.json"] ∧
      Deletion.delete Sample.project none false ["app/api/a.json"] Sample.disk = .ok report disk' ∧
      report.errors = [] ∧ ((Sample.scanner.scan Sample.disk).2.scan disk').1 = .ok r' ∧
      r.Survives r' (r.withConfidence .safeToDelete) := by
  have hp : Sample.disk.HasProject Sample.project ["p"] Sample.tree :=
    ⟨by decide +kernel, by decide, rfl, by decide⟩
  have hrun : ∃ r, (Sample.scanner.scan Sample.disk).1 = .ok r ∧
      (r.withConfidence .safeToDelete).map (·.file) = ["app/api/a.json"] := Outcome.ok_of_check (by decide +kernel)
  obtain ⟨r, hr, hsafe⟩ := hrun
  have hdoomed : ∀ a ∈ r.withConfidence .safeToDelete, a ∈ r.actions ∧ a.confidence = .safeToDelete :=
    fun a ha => ⟨(List.mem_filter.1 ha).1, of_decide_eq_true (List.mem_filter.1 ha).2⟩
  obtain ⟨report, disk', r', hdelete, herrors, -, hr', hsurvives⟩ := deletion_safe hp rfl (by decide)
    (fun dir _ h => Nat.not_lt_zero _ (Nat.lt_of_succ_lt_succ h.far)) hr hdoomed
  rw [hsafe] at hdelete
  exact ⟨r, report, disk', r', hr, hsafe, hdelete, herrors, hr', hsurvives⟩

/-- With an action folder far above the project, deleting an action that is safe to delete can make
the next scan fail: a folder outside the project that holds no file any more cannot be shown. -/
theorem rescan_fails_above_project :
    (∃ place tree, (Sample.innerDisk Sample.oneAction).HasProject Sample.inner.project place tree) ∧
    Sample.inner.config.actionDirs = .ok ["/"] ∧ (['.', '.'] : Text) ∉ Path.partsOf "/" ∧
    ∃ r report disk' f, (Sample.inner.scan (Sample.innerDisk Sample.oneAction)).1 = .ok r ∧
      (r.withConfidence .safeToDelete).map (·.file) = ["app/api/a.json"] ∧
      Deletion.delete Sample.inner.project none false ["app/api/a.json"]
        (Sample.innerDisk Sample.oneAction) = .ok report disk' ∧
      report.deleted = ["app/api/a.json"] ∧
      ((Sample.inner.scan (Sample.innerDisk Sample.oneAction)).2.scan disk').1 = .error f := by
  have hrun : ∃ r, (Sample.inner.scan (Sample.innerDisk Sample.oneAction)).1 = .ok r ∧
      (r.withConfidence .safeToDelete).map (·.file) = ["app/api/a.json"] := Outcome.ok_of_check (by decide +kernel)
  have hdelete : ∃ report disk', Deletion.delete Sample.inner.project none false ["app/api/a.json"]
      (Sample.innerDisk Sample.oneAction) = .ok report disk' ∧
      report.deleted = ["app/api/a.json"] ∧ disk' = Sample.innerDisk .empty := Outcome.done_of_check (by decide +kernel)
  have hagain : ∃ f, ((Sample.inner.moved .classified).scan (Sample.innerDisk .empty)).1 = .error f ∧ True :=
    Outcome.error_of_check (by decide +kernel)
  obtain ⟨r, hr, hsafe⟩ := hrun
  obtain ⟨report, _, hdelete, hdeleted, rfl⟩ := hdelete
  obtain ⟨f, hf, -⟩ := hagain
  obtain ⟨-, -, -, -, -, -, -, hstate⟩ := Scanner.scan_ok hr
  refine ⟨⟨["m", "p"], _, by decide +kernel, by decide, rfl, by decide⟩, rfl, by decide,
    r, report, _, f, hr, hsafe, hdelete, hdeleted, ?_⟩
  rw [hstate]
  exact hf

end ActionSweep
