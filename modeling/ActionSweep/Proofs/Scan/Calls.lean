/-
Calls from one action to another. What declares an action is found by one walk and what refers to it by
another, which leaves folders out and asks for patterns. A call is recorded if its file is met by both.
-/
import ActionSweep.Proofs.Deletion.Actions
import ActionSweep.Proofs.Extract.Document
import ActionSweep.Proofs.FileKind
import ActionSweep.Proofs.Scan.Literal

namespace ActionSweep

variable {disk : Disk} {place : List Text} {tree : Dir} {s : Scanner} {r : ScanResult} {a : Action}

/-- What an action shows is the document of its file. -/
theorem Scanner.readJson_of_action (hscan : (s.scan disk).1 = .ok r) (ha : a ∈ r.actions) :
    disk.readJson (s.project.under a.file) = .ok a.content := by
  obtain ⟨dirs, candidates, folders, hdone, -, -, -, -⟩ := scan_ok hscan
  obtain ⟨b, hb, hfile, -, hcontent⟩ := declared_of_mem hscan hdone.discoverable.dirs_eq ha
  rw [← hfile, ← hcontent, (Scan.mem_declared.1 hb).2.1]
  exact Disk.readJson_of_declares (Scan.file_of_mem_declared hb).2.1

/-- The standard settings search the file of an action as a document, unless it lies in a folder that is left out. -/
theorem ScanSettings.action_mem_candidates (hp : disk.HasProject s.project place tree)
    (hconfig : s.config = standardConfig) (hscan : (s.scan disk).1 = .ok r) (ha : a ∈ r.actions) (hline : '\n' ∉ a.file)
    (hclean : ∀ folder ∈ (Path.partsOf a.file).dropLast, folder ∉ leftOut)
    (htext : FileKind.extension (FileKind.baseName a.file) ≠ [] ∨
      FileKind.isTextFile disk (s.project.under a.file).text = true)
    {candidates : List (Text × Category)} (hall : Candidate.all standardRules disk s.project = .ok candidates) :
    (a.file, Category.structured) ∈ candidates := by
  have hdirs : s.config.actionDirs = .ok standardDirs := by
    rw [hconfig]
    rfl
  obtain ⟨b, hb, hfile, -, -⟩ := Scanner.declared_of_mem hscan hdirs ha
  obtain ⟨hjson, dir, hdir, more, hmore, hparts⟩ :=
    Scan.isJsonFile_of_mem_actionPaths hp standardDirs_lead_down (Scan.file_of_mem_declared hb).1
  rw [hfile] at hjson hparts
  obtain ⟨folders, name, rfl⟩ := (List.eq_nil_or_concat' more).resolve_left hmore
  obtain ⟨kind, hdir⟩ : ∃ kind, Path.partsOf dir = [("app" : Text), kind] := by
    simp only [standardDirs, List.mem_cons, List.not_mem_nil, or_false] at hdir
    rcases hdir with rfl | rfl
    · exact ⟨"api", rfl⟩
    · exact ⟨"lib", rfl⟩
  have hend : Key.extension <:+ name := by
    have := hjson.2
    rw [hparts, ← List.append_assoc, List.getLast?_concat] at this
    exact List.isSuffixOf_iff_suffix.1 this
  have below : FileBelow "app" ".json" a.file := ⟨kind :: folders, name, by rw [hparts, hdir]; rfl, hend⟩
  obtain ⟨hjoin, hpart, hfolders⟩ := below.spelled hjson.1 hclean
  have hclassified : standardRules.classify a.file = some .structured := by
    rw [hjoin]
    exact classify_json hpart (fun f hf => hfolders f (List.mem_cons_of_mem _ hf)) (hjoin ▸ hline) below.suffix
  refine mem_candidates hp hall hjson.1 below.parts (by simp) (by decide) hclean hclassified (htext.elim (fun h => ?_) id)
  obtain ⟨-, c, hentry⟩ := Scanner.file_of_action hp hscan hdirs (by decide) ha
  have hname : ∀ (anchor : Anchor) (front : List Text),
      FileKind.baseName (Path.mk anchor (front ++ Path.partsOf a.file)).text = below.name := by
    intro anchor front
    rw [below.parts, ← List.cons_append, ← List.append_assoc]
    exact FileKind.baseName_text _ (by simp) (hpart below.name (by simp)).noSlash
  refine FileKind.isTextFile_of_name hentry ?_
  rw [hjson.1.under, hname]
  rw [hjson.1.text_eq] at h
  exact FileKind.ofName_json below.suffix (hname .here [] ▸ h)

/-- A call from one action to another is recorded if its file is searched as a document; a file that is not searched
is the source of no reference at all. Under the standard settings the file of an action is searched, unless it lies in
a folder that is left out, its path has a line break, or its name has no extension and it does not look like text. -/
theorem calls_recorded {b : Action} {limit : Extract.DepthLimit} (hp : disk.HasProject s.project place tree)
    (hscan : (s.scan disk).1 = .ok r) (ha : a ∈ r.actions) (hb : b ∈ r.actions) (hdepth : s.config.depth = .ok limit)
    (hfits : Extract.Fits limit a.content) (hcalls : Extract.Calls a.content b.key) :
    ∃ candidates, Candidate.all s.config.rules disk s.project = .ok candidates ∧
      ((a.file, .structured) ∈ candidates →
        (∃ reference ∈ b.references, reference.source = a.file) ∧ b.confidence = .reviewNeeded) ∧
      (a.file ∉ candidates.map (·.1) → ∀ x, r.Holds x → x.source ≠ a.file) ∧
      (ScanSettings.standard.config = .ok s.config → '\n' ∉ a.file →
        (∀ folder ∈ (Path.partsOf a.file).dropLast, folder ∉ ScanSettings.leftOut) →
        FileKind.extension (FileKind.baseName a.file) ≠ [] ∨
          FileKind.isTextFile disk (s.project.under a.file).text = true →
        (a.file, .structured) ∈ candidates) := by
  obtain ⟨dirs, candidates, folders, hdone, -, -, -, -⟩ := Scanner.scan_ok hscan
  have hall := hdone.candidates_eq
  refine ⟨candidates, hall, fun hmem => ?_, fun hno x hx he => ?_,
    fun hconfig hline hclean htext => ?_⟩
  · obtain ⟨raws, hraws, raw, hraw, hkey⟩ := hcalls.found hfits
    have hsaid : raw ∈ Scan.referencesIn s.config disk s.project (a.file, .structured) := by
      unfold Scan.referencesIn
      simp only [Scanner.readJson_of_action hscan ha, hdepth, hraws]
      exact hraw
    have hreference := Scanner.reference_of_candidate hscan hall hmem hsaid hb hkey
    refine ⟨⟨_, hreference, rfl⟩, ?_⟩
    cases hconfidence : b.confidence with
    | safeToDelete => exact absurd (Action.safe_iff.1 hconfidence) (List.ne_nil_of_mem hreference)
    | reviewNeeded => rfl
  · obtain ⟨c, hc, hsource, -⟩ := Scanner.candidate_of_reference hscan hall hx
    exact hno (he ▸ hsource ▸ List.mem_map_of_mem hc)
  · have hstandard : s.config = ScanSettings.standardConfig :=
      Except.ok.inj (hconfig.symm.trans ScanSettings.standard_config)
    refine ScanSettings.action_mem_candidates hp hstandard hscan ha hline hclean htext ?_
    rw [← hall, hstandard]
    rfl

/-! ## Samples -/

/-- The key that the exec field of an object spells. -/
def Value.execKey? : Value → Option Text
  | .object fields =>
    match fieldD fields "exec" with
    | .text t => Key.ofReference .action t
    | _ => none
  | _ => none

theorem Value.calls_of_execKey {v : Value} {key : Text} (h : v.execKey? = some key) : Extract.Calls v key := by
  unfold execKey? at h
  split at h
  · split at h
    · rename_i ht
      exact .field (.here _) (mem_of_fieldD ht (by rintro ⟨⟩)) (.inr (.inl rfl)) h
    · cases h
  · cases h

/-- Two actions of a result, the second of which the first one calls in its exec field. -/
def ScanResult.calling (r : ScanResult) : List (Action × Action) :=
  r.actions.flatMap fun a => (r.actions.filter fun b => decide (a.content.execKey? = some b.key) &&
    (Extract.document a.content .standard).isOk).map fun b => (a, b)

theorem ScanResult.of_mem_calling {a b : Action} (h : (a, b) ∈ r.calling) :
    a ∈ r.actions ∧ b ∈ r.actions ∧ Extract.Fits .standard a.content ∧ Extract.Calls a.content b.key := by
  unfold calling at h
  obtain ⟨a, ha, h⟩ := List.mem_flatMap.1 h
  obtain ⟨b, hb, he⟩ := List.mem_map.1 h
  obtain ⟨rfl, rfl⟩ := Prod.mk.inj he
  rw [List.mem_filter, Bool.and_eq_true, decide_eq_true_eq] at hb
  obtain ⟨hb, hkey, hok⟩ := hb
  refine ⟨ha, hb, Extract.document_runs_iff.1 ?_, Value.calls_of_execKey hkey⟩
  cases hraws : Extract.document a.content .standard with
  | ok raws => exact ⟨raws, rfl⟩
  | error e =>
    rw [hraws] at hok
    cases hok

/-- The first action of the sample calls the second one. -/
theorem sample_calls_recorded : ∃ r, (Sample.scanner.scan Sample.disk).1 = .ok r ∧ ∃ a b, (a, b) ∈ r.calling ∧
    b.confidence = .reviewNeeded ∧ ∃ reference ∈ b.references, reference.source = a.file := by
  have hp : Sample.disk.HasProject Sample.project ["p"] Sample.tree := ⟨by decide +kernel, by decide, rfl, by decide⟩
  have hrun : ∃ r, (Sample.scanner.scan Sample.disk).1 = .ok r ∧
      r.calling.map (fun x => x.1.file) = (["app/api/a.json"] : List Text) := Outcome.ok_of_check (by decide +kernel)
  obtain ⟨r, hr, hcalling⟩ := hrun
  obtain ⟨⟨a, b⟩, hmem, hfile⟩ := List.mem_map.1 (hcalling ▸ List.mem_singleton_self _)
  obtain ⟨ha, hb, hfits, hcalls⟩ := ScanResult.of_mem_calling hmem
  obtain ⟨candidates, -, hsearched, -, hstandard⟩ := calls_recorded hp hr ha hb rfl hfits hcalls
  dsimp only at hfile
  obtain ⟨hreference, hused⟩ := hsearched (hstandard ScanSettings.standard_config (hfile ▸ by decide)
    (hfile ▸ by decide) (hfile ▸ .inl (by decide)))
  exact ⟨r, hr, a, b, hmem, hused, hreference⟩

namespace Sample

/-- A document that calls an action, with a control character that a text has not. -/
def blurredCall : Text := "\x7b\"exec\": \"b\", \"x\": \"\x7f\"\x7d"

/-- A project with an action in the library, and with what is given in the folder of API actions. -/
def callingTree (api : Dir) : Dir :=
  .folder "app" (.folder "api" api (.folder "lib" (file "b.json" "\x7b\"exec\": \"c\"\x7d" .empty) .empty)) .empty

end Sample

/-- A project with a call that is missed: the action that is called has no references, and is safe to delete. -/
def Scanner.MissesCall (s : Scanner) (tree : Dir) : Prop :=
  Disk.HasProject ⟨.folder "p" tree .empty, [], "/"⟩ s.project ["p"] tree ∧ s.config.depth = .ok .standard ∧
    ∃ r, (s.scan ⟨.folder "p" tree .empty, [], "/"⟩).1 = .ok r ∧ ∃ a ∈ r.actions, ∃ b ∈ r.actions,
      Extract.Fits .standard a.content ∧ Extract.Calls a.content b.key ∧
      b.references = [] ∧ b.confidence = .safeToDelete

theorem Scanner.missesCall_of_calling {s : Scanner} {tree : Dir}
    (hp : Disk.HasProject ⟨.folder "p" tree .empty, [], "/"⟩ s.project ["p"] tree) (hdepth : s.config.depth = .ok .standard)
    (h : ∃ r, (s.scan ⟨.folder "p" tree .empty, [], "/"⟩).1 = .ok r ∧ r.calling.map (fun x => x.2.references) = [[]]) :
    s.MissesCall tree := by
  obtain ⟨r, hr, hcalling⟩ := h
  obtain ⟨⟨a, b⟩, hmem, hnone⟩ := List.mem_map.1 (hcalling ▸ List.mem_singleton_self _)
  obtain ⟨ha, hb, hfits, hcalls⟩ := ScanResult.of_mem_calling hmem
  exact ⟨hp, hdepth, r, hr, a, ha, b, hb, hfits, hcalls, hnone, Action.safe_iff.2 hnone⟩

namespace Sample

/-- A project whose only call stands in a folder for which there are no patterns. -/
def serverTree : Dir := (callingTree .empty).put "server" (.folder oneAction)

def serverScanner : Scanner := .new project { ScanSettings.standardConfig with actionDirs := .ok ["app/lib", "server"] }

end Sample

/-- Calls from files that are not searched are missed: from a file in a folder that is left out, in a folder with a
line break in its name, with nothing but an ending for a name, and in a folder for which there are no patterns. -/
theorem unsearched_calls_missed :
    Sample.scanner.MissesCall (Sample.callingTree (.folder "node_modules" Sample.oneAction .empty)) ∧
      Sample.scanner.MissesCall (Sample.callingTree (.folder "x\ny" Sample.oneAction .empty)) ∧
      Sample.scanner.MissesCall (Sample.callingTree (Sample.file ".json" Sample.blurredCall .empty)) ∧
      Sample.serverScanner.MissesCall Sample.serverTree := by
  refine ⟨?_, ?_, ?_, ?_⟩
  all_goals
    exact Scanner.missesCall_of_calling ⟨by decide +kernel, by decide, rfl, by decide⟩ rfl
      (Outcome.ok_of_check (by decide +kernel))

end ActionSweep
