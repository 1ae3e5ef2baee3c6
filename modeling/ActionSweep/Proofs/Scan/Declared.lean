/-
The index after discovery and at the end of a scan: no key is declared twice, the action of a key is
the one of the last file that declares it, and its references are the findings that name its key. Files
with keys of their own declare one action each.
-/
import ActionSweep.Proofs.Scan.Steps

namespace ActionSweep

open Finding (naming)

namespace Index

/-! ## One declaration -/

/-- An index to which nothing was recorded yet: distinct keys, and no references. -/
structure Fresh (i : Index) : Prop where
  keys : (i.actions.map (·.key)).Nodup
  bare : ∀ a ∈ i.actions, a.references = []
  nothing : i.recorded = []

theorem fresh_empty : empty.Fresh := ⟨List.nodup_nil, by simp [empty], rfl⟩

theorem Fresh.declare {i : Index} (h : i.Fresh) (key file : Text) (content : Value) :
    (i.declare key file content).Fresh := by
  refine ⟨?_, fun a ha => ?_, h.nothing⟩
  · show ((putAction _ i.actions).map (·.key)).Nodup
    rw [putAction_keys]
    split
    · exact h.keys
    · rename_i hk
      rw [List.nodup_append]
      refine ⟨h.keys, List.nodup_singleton _, fun x hx y hy hxy => hk ?_⟩
      rw [List.mem_singleton] at hy
      subst hy hxy
      exact hx
  · rcases (mem_putAction h.keys).1 ha with rfl | ⟨ha, -⟩
    · rfl
    · exact h.bare a ha

end Index

/-! ## All declarations -/

namespace Scan

variable {disk : Disk} {project : Path}

theorem foldl_declareFile_fresh : ∀ (paths : List Text) {i : Index}, i.Fresh →
    (paths.foldl (declareFile disk project) i).Fresh
  | [], _, h => h
  | path :: paths, i, h => by
    refine foldl_declareFile_fresh paths ?_
    unfold declareFile
    split
    · exact h.declare ..
    · exact h

theorem declared_fresh (dirs : List Text) (disk : Disk) (project : Path) :
    (declared dirs disk project).Fresh :=
  foldl_declareFile_fresh _ Index.fresh_empty

/-- The files among some paths that declare an action with a key. -/
def declaring (disk : Disk) (project : Path) (paths : List Text) (key : Text) : List Text :=
  paths.filter fun path =>
    (disk.documentAt project path).declaresAction && decide (Key.ofDeclaration path = key)

/-- The declared actions: each key has the last file that declares it. -/
theorem mem_foldl_declareFile {paths : List Text} {a : Action} :
    a ∈ (paths.foldl (declareFile disk project) .empty).actions ↔
      (declaring disk project paths a.key).getLast? = some a.file ∧
        a.content = disk.documentAt project a.file ∧ a.references = [] := by
  induction paths using List.reverseRecOn with
  | nil => simp [declaring, Index.empty]
  | append_singleton paths path ih =>
    have hfresh : (paths.foldl (declareFile disk project) .empty).Fresh :=
      foldl_declareFile_fresh paths Index.fresh_empty
    rw [List.foldl_append, List.foldl_cons, List.foldl_nil]
    generalize paths.foldl (declareFile disk project) Index.empty = i at ih hfresh ⊢
    unfold declaring at ih ⊢
    unfold declareFile
    rw [List.filter_append]
    by_cases hd : (disk.documentAt project path).declaresAction = true
    · rw [if_pos hd]
      show a ∈ Index.putAction _ i.actions ↔ _
      rw [Index.mem_putAction hfresh.keys, ih]
      -- a declaration takes the place of an earlier one of its key, and becomes the last one of it
      by_cases hk : Key.ofDeclaration path = a.key
      · simp only [hd, hk, decide_true, Bool.and_self, List.filter_cons_of_pos, List.filter_nil,
          List.getLast?_append, List.getLast?_singleton, Option.some_or, Option.some.injEq]
        constructor
        · rintro (ha | ⟨-, hne⟩)
          · rw [ha]
            exact ⟨rfl, rfl, rfl⟩
          · exact absurd rfl hne
        · rintro ⟨rfl, hc, hr⟩
          obtain ⟨key, file, content, references⟩ := a
          simp only at hk hc hr
          subst hk hc hr
          exact .inl rfl
      · have hempty : [path].filter (fun path => (disk.documentAt project path).declaresAction &&
            decide (Key.ofDeclaration path = a.key)) = [] := by simp [hk]
        rw [hempty, List.append_nil]
        constructor
        · rintro (rfl | ⟨h, -⟩)
          · exact absurd rfl hk
          · exact h
        · exact fun h => .inr ⟨h, Ne.symm hk⟩
    · rw [if_neg hd, ih]
      simp [hd]

theorem mem_declared {dirs : List Text} {a : Action} :
    a ∈ (declared dirs disk project).actions ↔
      (declaring disk project (actionPaths dirs disk project) a.key).getLast? = some a.file ∧
        a.content = disk.documentAt project a.file ∧ a.references = [] :=
  mem_foldl_declareFile

/-- The file of a declared action is an action file whose document declares the key of the action. -/
theorem file_of_mem_declared {dirs : List Text} {a : Action} (h : a ∈ (declared dirs disk project).actions) :
    a.file ∈ actionPaths dirs disk project ∧
      (disk.documentAt project a.file).declaresAction = true ∧ Key.ofDeclaration a.file = a.key := by
  have hmem := List.mem_of_getLast? (mem_declared.1 h).1
  unfold declaring at hmem
  rw [List.mem_filter, Bool.and_eq_true, decide_eq_true_eq] at hmem
  exact hmem

/-- What a file declares. -/
def declaration (disk : Disk) (project : Path) (path : Text) : Action :=
  ⟨Key.ofDeclaration path, path, disk.documentAt project path, []⟩

/-- Files with keys of their own declare one action each, in their order. -/
theorem foldl_declareFile_distinct {paths : List Text} (hnodup : paths.Nodup)
    (hkeys : ∀ p ∈ paths, ∀ q ∈ paths, Key.ofDeclaration p = Key.ofDeclaration q → p = q) :
    (paths.foldl (declareFile disk project) .empty).actions =
      (paths.filter fun p => (disk.documentAt project p).declaresAction).map (declaration disk project) := by
  induction paths using List.reverseRecOn with
  | nil => rfl
  | append_singleton paths path ih =>
    obtain ⟨hnodup, -, hdisjoint⟩ := List.nodup_append.1 hnodup
    have ih := ih hnodup fun p hp q hq => hkeys p (List.mem_append_left _ hp) q (List.mem_append_left _ hq)
    rw [List.foldl_append, List.foldl_cons, List.foldl_nil, List.filter_append, List.map_append]
    generalize paths.foldl (declareFile disk project) Index.empty = i at ih ⊢
    simp only [declareFile, List.filter_cons, List.filter_nil]
    split
    · have hnew : Key.ofDeclaration path ∉ i.actions.map (·.key) := by
        rw [ih, List.map_map]
        intro hmem
        obtain ⟨p, hp, hkey⟩ := List.mem_map.1 hmem
        have hp := List.mem_of_mem_filter hp
        exact hdisjoint p hp path (List.mem_singleton_self path)
          (hkeys p (List.mem_append_left _ hp) path (by simp) hkey)
      rw [← ih]
      exact Index.putAction_new (declaration disk project path) hnew
    · rw [List.map_nil, List.append_nil, ih]

end Scan

/-! ## The index at the end of a scan -/

theorem insertRanked_safe {a : Action} (ha : a.confidence = .safeToDelete) : ∀ actions, insertRanked a actions = a :: actions
  | [] => rfl
  | b :: rest => by
    rw [insertRanked, if_pos (by rw [ha]; exact Nat.zero_le _)]

/-- An action with references is put before the first other one. -/
theorem insertRanked_review {a : Action} (ha : a.confidence = .reviewNeeded) {safe review : List Action}
    (hsafe : ∀ b ∈ safe, b.confidence = .safeToDelete) (hreview : ∀ b ∈ review, b.confidence = .reviewNeeded) :
    insertRanked a (safe ++ review) = safe ++ a :: review := by
  induction safe with
  | nil =>
    cases review with
    | nil => rfl
    | cons b rest =>
      rw [List.nil_append, insertRanked, if_pos]
      · rfl
      · exact Nat.le_of_eq (by rw [ha, hreview b (List.mem_cons_self ..)])
  | cons b rest ih =>
    obtain ⟨hb, hrest⟩ := List.forall_mem_cons.1 hsafe
    rw [List.cons_append, insertRanked, if_neg (by rw [ha, hb]; decide), ih hrest]
    rfl

/-- The actions without references come first, then the others, either sort in its order. -/
theorem rank_eq (actions : List Action) :
    rank actions = actions.filter (·.confidence = .safeToDelete) ++ actions.filter (·.confidence = .reviewNeeded) := by
  unfold rank
  induction actions with
  | nil => rfl
  | cons a rest ih =>
    rw [List.foldr_cons, ih]
    cases ha : a.confidence with
    | safeToDelete =>
      rw [insertRanked_safe ha, List.filter_cons_of_pos (by simp [ha]), List.filter_cons_of_neg (by simp [ha]), List.cons_append]
    | reviewNeeded =>
      rw [insertRanked_review ha (fun b hb => by simpa using (List.mem_filter.1 hb).2)
        (fun b hb => by simpa using (List.mem_filter.1 hb).2), List.filter_cons_of_neg (by simp [ha]),
        List.filter_cons_of_pos (by simp [ha])]

theorem rank_perm (actions : List Action) : (rank actions).Perm actions := by
  rw [rank_eq]
  have h : actions.filter (fun a => a.confidence = .reviewNeeded) =
      actions.filter fun a => !decide (a.confidence = .safeToDelete) := by
    refine List.filter_congr fun a _ => ?_
    cases a.confidence <;> decide
  rw [h]
  exact List.filter_append_perm _ _

theorem mem_rank {a : Action} {actions : List Action} : a ∈ rank actions ↔ a ∈ actions :=
  (rank_perm actions).mem_iff

theorem Action.safe_iff {a : Action} : a.confidence = .safeToDelete ↔ a.references = [] := by
  unfold confidence Confidence.ofCount
  rw [← List.length_eq_zero_iff]
  split
  · rename_i h; simp [h]
  · rename_i h; simp [h]

namespace Index

variable {i : Index} {found : List Finding}

/-- Recording in a fresh index gives each action the findings that name it. -/
theorem Fresh.references (h : i.Fresh) {a : Action} (ha : a ∈ (i.recordAll found).actions) :
    a.references = naming found a.key := by
  rw [recordAll_actions] at ha
  obtain ⟨b, hb, rfl⟩ := List.mem_map.1 ha
  show b.references ++ naming found b.key = naming found b.key
  rw [h.bare b hb, List.nil_append]

end Index

/-- No two actions of a result have one key. -/
theorem Scanner.nodup_keys {s : Scanner} {disk : Disk} {r : ScanResult} (hscan : (s.scan disk).1 = .ok r) :
    (r.actions.map (·.key)).Nodup := by
  obtain ⟨dirs, candidates, folders, -, hactions, -, -, -⟩ := scan_ok hscan
  rw [hactions, ((rank_perm _).map _).nodup_iff]
  unfold finalIndex
  rw [Index.recordAll_keys]
  exact (Scan.declared_fresh dirs disk s.project).keys

/-- What a candidate says of the key of an action is one of its references. -/
theorem Scanner.reference_of_candidate {s : Scanner} {disk : Disk} {r : ScanResult}
    (hscan : (s.scan disk).1 = .ok r) {candidates : List (Text × Category)}
    (hall : Candidate.all s.config.rules disk s.project = .ok candidates) {c : Text × Category}
    (hc : c ∈ candidates) {raw : RawReference} (hraw : raw ∈ Scan.referencesIn s.config disk s.project c)
    {a : Action} (ha : a ∈ r.actions) (hkey : Key.ofReference .action raw.path = some a.key) :
    ⟨c.1, raw.provenance, raw.path⟩ ∈ a.references := by
  obtain ⟨dirs, candidates', folders, hdone, hactions, -, -, -⟩ := scan_ok hscan
  obtain rfl := Except.ok.inj (hdone.candidates_eq.symm.trans hall)
  rw [hactions, mem_rank] at ha
  rw [(Scan.declared_fresh dirs disk s.project).references ha]
  exact Finding.mem_naming.2 ⟨⟨c.1, raw⟩, List.mem_flatMap.2 ⟨c, hc, List.mem_map_of_mem hraw⟩, hkey, rfl⟩

/-- The references of a result: those of its actions, and those that name no action. -/
def ScanResult.Holds (r : ScanResult) (x : Reference) : Prop :=
  (∃ a ∈ r.actions, x ∈ a.references) ∨ ∃ e ∈ r.unresolved, x ∈ e.2

/-- Every reference of a result is something that a candidate says. -/
theorem Scanner.candidate_of_reference {s : Scanner} {disk : Disk} {r : ScanResult}
    (hscan : (s.scan disk).1 = .ok r) {candidates : List (Text × Category)}
    (hall : Candidate.all s.config.rules disk s.project = .ok candidates) {x : Reference} (hx : r.Holds x) :
    ∃ c ∈ candidates, x.source = c.1 ∧ Scan.referencesIn s.config disk s.project c ≠ [] := by
  obtain ⟨dirs, candidates', folders, hdone, hactions, hunresolved, -, -⟩ := scan_ok hscan
  obtain rfl := Except.ok.inj (hdone.candidates_eq.symm.trans hall)
  have hfresh := Scan.declared_fresh dirs disk s.project
  have hnaming : ∃ key, x ∈ Finding.naming (candidates'.flatMap (Scan.findingsIn s.config disk s.project)) key := by
    rcases hx with ⟨a, ha, hx⟩ | ⟨e, he, hx⟩
    · rw [hactions, mem_rank] at ha
      rw [hfresh.references ha] at hx
      exact ⟨a.key, hx⟩
    · rw [hunresolved] at he
      rw [((Index.mem_recordAll_unresolved hfresh.nothing).1 he).1] at hx
      exact ⟨e.1, hx⟩
  obtain ⟨key, hx⟩ := hnaming
  obtain ⟨f, hf, -, rfl⟩ := Finding.mem_naming.1 hx
  obtain ⟨c, hc, hf⟩ := List.mem_flatMap.1 hf
  obtain ⟨raw, hraw, rfl⟩ := List.mem_map.1 hf
  exact ⟨c, hc, rfl, List.ne_nil_of_mem hraw⟩

/-- The actions of a result are declared by files. -/
theorem Scanner.declared_of_mem {s : Scanner} {disk : Disk} {r : ScanResult} (hscan : (s.scan disk).1 = .ok r)
    {dirs : List Text} (hdirs : s.config.actionDirs = .ok dirs) {a : Action} (ha : a ∈ r.actions) :
    ∃ b ∈ (Scan.declared dirs disk s.project).actions, b.file = a.file ∧ b.key = a.key ∧ b.content = a.content := by
  obtain ⟨dirs', candidates, folders, hc, hactions, -, -, -⟩ := scan_ok hscan
  obtain rfl := hc.dirs_unique hdirs
  rw [hactions, mem_rank] at ha
  unfold finalIndex at ha
  rw [Index.recordAll_actions] at ha
  obtain ⟨b, hb, rfl⟩ := List.mem_map.1 ha
  exact ⟨b, hb, rfl, rfl, rfl⟩

end ActionSweep
