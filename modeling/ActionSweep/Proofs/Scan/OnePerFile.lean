/-
One action for each file that declares one. Keys of declarations collide only between a file below `app/lib` and the
file at the same path without the first folder. No two files of the standard action folders stand to each other like
this, so no action of a scan is shadowed by another one, and the actions come in the order of their files, those that
are safe to delete first.
-/
import ActionSweep.Proofs.Scan.Growth

namespace ActionSweep

open ScanSettings (standardDirs)

/-! ## Keys of declarations -/

namespace Key

/-- A path, relative to the project and spelled plainly, of a file that may declare an action. -/
structure Declarable (file : Text) : Prop where
  plain : (Path.ofText file).text = file
  relative : ¬ ['/'] <+: file
  ending : extension <:+ file

/-- A file below `app/lib`, and the file at the same path without the first folder. -/
inductive Twins : Text → Text → Prop
  | mk (s : Text) : Twins ("app/lib/" ++ s) ("lib/" ++ s)

theorem Declarable.home_or_path {file : Text} (h : Declarable file) :
    (∃ name, Home name file (ofDeclaration file)) ∨ file = ofDeclaration file ++ extension := by
  obtain ⟨path, rfl⟩ := h.ending
  by_cases hapi : "app/api/" <+: path
  · obtain ⟨name, rfl⟩ := hapi
    rw [List.append_assoc] at h ⊢
    rw [Home.api.ofDeclaration_eq h.plain]
    exact .inl ⟨name, .api⟩
  by_cases hlib : "app/lib/" <+: path
  · obtain ⟨name, rfl⟩ := hlib
    rw [List.append_assoc] at h ⊢
    rw [Home.lib.ofDeclaration_eq h.plain]
    exact .inl ⟨name, .lib⟩
  · rw [ofDeclaration_elsewhere h.plain (mt (begins_of_extension (by decide)) hapi)
      (mt (begins_of_extension (by decide)) hlib), dropExtension_append]
    exact .inr rfl

/-- The key of a file below one of the two folders is the path of another file only for library actions. -/
theorem Home.twins {name file key : Text} (h : Home name file key) (hrelative : ¬ ['/'] <+: key ++ extension) :
    Twins file (key ++ extension) := by
  cases h with
  | api => exact absurd (by simp [apiMark]) hrelative
  | lib =>
    rw [List.append_assoc]
    exact .mk (name ++ extension)

theorem Twins.key_eq {f g : Text} (h : Twins f g) (hf : (Path.ofText f).text = f) (hg : (Path.ofText g).text = g) :
    ofDeclaration f = ofDeclaration g := by
  obtain ⟨s⟩ := h
  rw [ofDeclaration_app_lib hf,
    ofDeclaration_elsewhere hg (by simp [List.cons_prefix_cons]) (by simp [List.cons_prefix_cons])]
  exact (dropExtension_slash ['l', 'i', 'b'] s).symm

/-- Keys of different files collide for twins only. -/
theorem ofDeclaration_eq_iff {f g : Text} (hf : Declarable f) (hg : Declarable g) (hne : f ≠ g) :
    ofDeclaration f = ofDeclaration g ↔ Twins f g ∨ Twins g f := by
  constructor
  · intro hkey
    rcases hf.home_or_path with ⟨name, hhome⟩ | hpath
    · rw [hkey] at hhome
      rcases hg.home_or_path with ⟨name', hhome'⟩ | hpath'
      · exact absurd ((hhome.file_eq_iff hhome').2 rfl) hne
      · rw [hpath']
        exact .inl (hhome.twins (hpath' ▸ hg.relative))
    · rcases hg.home_or_path with ⟨name', hhome'⟩ | hpath'
      · rw [← hkey] at hhome'
        rw [hpath]
        exact .inr (hhome'.twins (hpath ▸ hf.relative))
      · rw [hkey, ← hpath'] at hpath
        exact absurd hpath hne
  · rintro (h | h)
    · exact h.key_eq hf.plain hg.plain
    · exact (h.key_eq hg.plain hf.plain).symm

end Key

/-! ## The order of action files -/

namespace Scan

variable {disk : Disk} {project : Path} {place : List Text} {tree : Dir}

/-- What is listed below a folder begins with the path of the folder. -/
theorem begins_of_mem_filesOf (hp : disk.HasProject project place tree) {dir : Text} (hdir : dir ∈ standardDirs)
    {file : Text} (h : file ∈ filesOf disk project (project.under dir)) : dir ++ ['/'] <+: file := by
  obtain ⟨hhere, hdesc⟩ := ScanSettings.standardDirs_lead_down dir hdir
  unfold filesOf at h
  split at h
  · rename_i files hfiles
    obtain ⟨hjson, more, hne, hparts⟩ := (mem_actionFiles_iff hp hhere hdesc hfiles).1 h
    have hdirs : Path.partsOf dir ≠ [] ∧ Text.join "/" (Path.partsOf dir) = dir := by
      simp only [standardDirs, List.mem_cons, List.not_mem_nil, or_false] at hdir
      rcases hdir with rfl | rfl <;> decide
    obtain ⟨stem, rfl⟩ := hjson.spelled hdirs.1 hne hparts
    rw [hdirs.2]
    exact List.prefix_append ..
  · cases h

/-- The files of both folders are listed in strict order, those of the API first. -/
theorem actionPaths_increasing (hp : disk.HasProject project place tree) :
    (actionPaths standardDirs disk project).Pairwise (· < ·) := by
  unfold actionPaths
  refine List.pairwise_flatMap.2 ⟨fun root hroot => ?_, List.Pairwise.filter _ ?_⟩
  · obtain ⟨dir, -, rfl⟩ := List.mem_map.1 (List.mem_of_mem_filter hroot)
    unfold filesOf
    split
    · rename_i files hfiles
      exact actionFiles_increasing hp.wellFormed (hp.normal.under dir) hfiles
    · exact .nil
  · refine List.pairwise_pair.2 fun x hx y hy => ?_
    obtain ⟨s, rfl⟩ := begins_of_mem_filesOf hp (by simp [standardDirs]) hx
    obtain ⟨t, rfl⟩ := begins_of_mem_filesOf hp (by simp [standardDirs]) hy
    simp [List.cons_lt_cons_iff]

end Scan

/-! ## The order of actions -/

/-- One action stands before another one if only it is safe to delete, or if they are of one sort and its file comes
first. -/
def Action.Before (a b : Action) : Prop :=
  a.confidence = .safeToDelete ∧ b.confidence = .reviewNeeded ∨ a.confidence = b.confidence ∧ a.file < b.file

theorem rank_before {actions : List Action} (h : actions.Pairwise fun a b => a.file < b.file) :
    (rank actions).Pairwise Action.Before := by
  have hsort : ∀ c, (actions.filter fun a => a.confidence = c).Pairwise Action.Before := by
    intro c
    refine (h.filter _).imp_of_mem fun ha hb hlt => .inr ⟨?_, hlt⟩
    rw [of_decide_eq_true (List.mem_filter.1 ha).2, of_decide_eq_true (List.mem_filter.1 hb).2]
  rw [rank_eq]
  refine List.pairwise_append.2 ⟨hsort _, hsort _, fun a ha b hb => .inl ⟨?_, ?_⟩⟩
  · exact of_decide_eq_true (List.mem_filter.1 ha).2
  · exact of_decide_eq_true (List.mem_filter.1 hb).2

/-! ## One action for each file -/

/-- A file in one of the standard action folders, with the document by which it declares an action. -/
structure Declares (disk : Disk) (project : Path) (tree : Dir) (file : Text) (content : Value) : Prop where
  isFile : IsActionFile tree file
  reads : disk.readJson (project.under file) = .ok content
  declares : content.declaresAction = true

/-- The actions of a result are the declarations of a project. -/
structure ScanResult.OnePerFile (r : ScanResult) (disk : Disk) (project : Path) (tree : Dir) : Prop where
  declared : ∀ file content, Declares disk project tree file content →
    ∃ a ∈ r.actions, a.file = file ∧ a.key = Key.ofDeclaration file ∧ a.content = content
  only : ∀ a ∈ r.actions, Declares disk project tree a.file a.content ∧ a.key = Key.ofDeclaration a.file
  once : (r.actions.map (·.file)).Nodup
  unshadowed : ∀ a ∈ r.actions, ∀ file, IsActionFile tree file → Key.ofDeclaration file = a.key → file = a.file
  ordered : r.actions.Pairwise Action.Before

namespace Scanner

variable {s : Scanner} {disk : Disk} {place : List Text} {tree : Dir} {r : ScanResult}

/-- What a scan lists are the declarations of the action files, in their order, with the references that were found. -/
theorem actions_of_files (hconfig : ScanSettings.standard.config = .ok s.config)
    (hp : disk.HasProject s.project place tree) (hscan : (s.scan disk).1 = .ok r) :
    ∃ files : List Text, ∃ found, r.actions = rank (files.map fun file =>
        Index.attached (Finding.naming found) (Scan.declaration disk s.project file)) ∧
      files.Pairwise (· < ·) ∧
      ∀ file, file ∈ files ↔ IsActionFile tree file ∧ (disk.documentAt s.project file).declaresAction = true := by
  have hdirs : s.config.actionDirs = .ok standardDirs := by
    rw [Except.ok.inj (hconfig.symm.trans ScanSettings.standard_config)]
    rfl
  obtain ⟨dirs, candidates, folders, hdone, hactions, -⟩ := scan_ok hscan
  obtain rfl := hdone.dirs_unique hdirs
  have hmem : ∀ {file}, file ∈ Scan.actionPaths standardDirs disk s.project ↔ IsActionFile tree file :=
    Scan.mem_actionPaths_iff hp hdone.discoverable ScanSettings.standardDirs_lead_down
  have hordered := Scan.actionPaths_increasing hp
  have hdeclared : (Scan.declared standardDirs disk s.project).actions = _ :=
    Scan.foldl_declareFile_distinct (Text.nodup_of_increasing hordered) fun p hp q hq =>
      (hmem.1 hp).key_injective (hmem.1 hq)
  refine ⟨(Scan.actionPaths standardDirs disk s.project).filter fun file =>
    (disk.documentAt s.project file).declaresAction, candidates.flatMap (Scan.findingsIn s.config disk s.project), ?_,
    hordered.filter _, fun file => by rw [List.mem_filter, hmem]⟩
  rw [hactions, finalIndex, Index.recordAll_actions, hdeclared, List.map_map]
  rfl

theorem one_per_file (hconfig : ScanSettings.standard.config = .ok s.config)
    (hp : disk.HasProject s.project place tree) (hscan : (s.scan disk).1 = .ok r) :
    r.OnePerFile disk s.project tree := by
  obtain ⟨files, found, hactions, hordered, hfiles⟩ := actions_of_files hconfig hp hscan
  have hmem : ∀ a, a ∈ r.actions ↔ ∃ file ∈ files,
      Index.attached (Finding.naming found) (Scan.declaration disk s.project file) = a := fun a => by
    rw [hactions, mem_rank, List.mem_map]
  constructor
  case declared =>
    intro file content h
    have hcontent := Disk.documentAt_ok h.reads
    have hfile := (hfiles file).2 ⟨h.isFile, hcontent ▸ h.declares⟩
    exact ⟨_, (hmem _).2 ⟨file, hfile, rfl⟩, rfl, rfl, hcontent⟩
  case only =>
    intro a ha
    obtain ⟨file, hfile, rfl⟩ := (hmem a).1 ha
    obtain ⟨hjson, hdeclares⟩ := (hfiles file).1 hfile
    exact ⟨⟨hjson, Disk.readJson_of_declares hdeclares, hdeclares⟩, rfl⟩
  case once =>
    rw [hactions, ((rank_perm _).map _).nodup_iff, List.map_map]
    show (files.map id).Nodup
    rw [List.map_id]
    exact Text.nodup_of_increasing hordered
  case unshadowed =>
    intro a ha file hfile hkey
    obtain ⟨other, hother, rfl⟩ := (hmem a).1 ha
    exact hfile.key_injective ((hfiles other).1 hother).1 hkey
  case ordered =>
    rw [hactions]
    exact rank_before (List.pairwise_map.2 hordered)

end Scanner

/-- Keys of different files collide only for a file below `app/lib` and its twin. So under the standard settings a scan
of a project without links has one action for each file that declares one, in the order of the files, those that are
safe to delete first. -/
theorem keys_collide_for_twins_only :
    (∀ f g, Key.Declarable f → Key.Declarable g → f ≠ g →
      (Key.ofDeclaration f = Key.ofDeclaration g ↔ Key.Twins f g ∨ Key.Twins g f)) ∧
    ∀ (s : Scanner) (disk : Disk) (place : List Text) (tree : Dir) (r : ScanResult),
      ScanSettings.standard.config = .ok s.config → disk.HasProject s.project place tree → (s.scan disk).1 = .ok r →
        r.OnePerFile disk s.project tree :=
  ⟨fun _ _ hf hg hne => Key.ofDeclaration_eq_iff hf hg hne, fun _ _ _ _ _ => Scanner.one_per_file⟩

/-- Both files of the sample project have their action, although a twin of one of them would have its key. -/
theorem sample_keys_collide_for_twins_only :
    Key.ofDeclaration "app/lib/b.json" = Key.ofDeclaration "lib/b.json" ∧
      ∃ r, (Sample.scanner.scan Sample.disk).1 = .ok r ∧ r.actions.length = 2 ∧
        r.OnePerFile Sample.disk Sample.project Sample.tree := by
  have hkey := (keys_collide_for_twins_only.1 "app/lib/b.json" "lib/b.json" ⟨by decide, by decide, by decide⟩
    ⟨by decide, by decide, by decide⟩ (by decide)).2 (.inl (.mk "b.json"))
  have hp : Sample.disk.HasProject Sample.project ["p"] Sample.tree :=
    ⟨by decide +kernel, by decide, rfl, by decide⟩
  obtain ⟨r, hr, hlength⟩ : ∃ r, (Sample.scanner.scan Sample.disk).1 = .ok r ∧ r.actions.length = 2 :=
    Outcome.ok_of_check (by decide +kernel)
  exact ⟨hkey, r, hr, hlength, keys_collide_for_twins_only.2 Sample.scanner Sample.disk ["p"] Sample.tree r
    ScanSettings.standard_config hp hr⟩

end ActionSweep
