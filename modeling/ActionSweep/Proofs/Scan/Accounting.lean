/-
Every reference is accounted for: after a scan the lists of the actions and the unresolved lists hold
the references that the candidates of the project name a key with, each exactly as often as it was
found and each under the key that it names. So an action is safe to delete exactly if nothing that
was found names its key.
-/
import ActionSweep.Proofs.Scan.Declared
import ActionSweep.Proofs.Sample

namespace ActionSweep

open Finding (naming namingAny)
open Outcome (bind_ok)

/-! ## The index at the end of a scan -/

namespace Index

variable {i : Index} {found : List Finding}

theorem Fresh.references_flatMap (h : i.Fresh) :
    (i.recordAll found).actions.flatMap (·.references) =
      (i.actions.map (·.key)).flatMap (naming found) := by
  rw [recordAll_actions, List.flatMap_map, List.flatMap_map]
  refine List.flatMap_congr fun a ha => ?_
  show a.references ++ naming found a.key = naming found a.key
  rw [h.bare a ha, List.nil_append]

/-- The accounts of an index add up: what its actions have and what is unresolved is what was found. -/
theorem Fresh.accounts (h : i.Fresh) (found : List Finding) :
    ((i.recordAll found).actions.flatMap (·.references) ++
      (i.recordAll found).unresolved.flatMap (·.2)).Perm (namingAny found) := by
  have hopen : ((namedKeys found).filter fun k => !i.contains k).Nodup := (nodup_namedKeys found).filter _
  have hkeys : (i.actions.map (·.key) ++ (namedKeys found).filter fun k => !i.contains k).Nodup := by
    refine List.nodup_append.2 ⟨h.keys, hopen, fun k hk k' hk' he => ?_⟩
    subst he
    have := (List.mem_filter.1 hk').2
    rw [contains_iff.2 hk] at this
    cases this
  have hunresolved : (i.recordAll found).unresolved.flatMap (·.2) =
      ((namedKeys found).filter fun k => !i.contains k).flatMap (naming found) := by
    rw [recordAll_unresolved h.nothing, List.flatMap_map]
  rw [h.references_flatMap, hunresolved, ← List.flatMap_append]
  refine (flatMap_naming_perm found hkeys).trans (List.Perm.of_eq ?_)
  unfold namingAny
  congr 1
  refine List.filter_congr fun f hf => ?_
  cases hk : f.key? with
  | none => rfl
  | some key =>
    -- a key that was named is declared, or it is one of the unresolved
    have hmem : key ∈ i.actions.map (·.key) ++ (namedKeys found).filter fun k => !i.contains k := by
      rw [List.mem_append, List.mem_filter, ← contains_iff]
      cases i.contains key with
      | true => exact .inl rfl
      | false => exact .inr ⟨mem_namedKeys.2 ⟨f, hf, hk⟩, rfl⟩
    simpa using hmem

end Index

/-! ## The accounts of a scan -/

/-- How a result accounts for what was found. -/
structure ScanResult.Accounts (r : ScanResult) (found : List Finding) : Prop where
  /-- No two actions have one key. -/
  keys : (r.actions.map (·.key)).Nodup
  /-- A reference of an action names its key. -/
  resolved : ∀ a ∈ r.actions, ∀ ref ∈ a.references, Key.ofReference .action ref.original = some a.key
  /-- No two unresolved lists have one key, and no action has the key of one. -/
  openKeys : (r.unresolved.map (·.1)).Nodup ∧ ∀ e ∈ r.unresolved, e.1 ∉ r.actions.map (·.key)
  /-- A reference of an unresolved list names its key. -/
  unresolved : ∀ e ∈ r.unresolved, ∀ ref ∈ e.2, Key.ofReference .action ref.original = some e.1
  /-- The lists together are what was found and names a key, each counted as often. -/
  total : (r.actions.flatMap (·.references) ++ r.unresolved.flatMap (·.2)).Perm
    ((found.filter fun f => (Key.ofReference .action f.raw.path).isSome).map Finding.reference)
  /-- Safe to delete is what nothing names. -/
  safe_iff : ∀ a ∈ r.actions, a.confidence = .safeToDelete ↔
    ∀ f ∈ found, Key.ofReference .action f.raw.path ≠ some a.key

/-- Every scan that gives a result accounts for all references in the candidates of the project. -/
theorem scan_accounts {s : Scanner} {disk : Disk} {r : ScanResult} (h : (s.scan disk).1 = .ok r) :
    ∃ found, Scan.findings s.config disk s.project = .ok found ∧ r.Accounts found := by
  obtain ⟨dirs, candidates, folders, hc, hactions, hunresolved, -, -⟩ := Scanner.scan_ok h
  have hfresh := Scan.declared_fresh dirs disk s.project
  refine ⟨candidates.flatMap (Scan.findingsIn s.config disk s.project),
    bind_ok.2 ⟨candidates, hc.candidates_eq, rfl⟩, ?_⟩
  unfold Scanner.finalIndex at hactions hunresolved
  -- from here on it matters only that the index was fresh and what was recorded
  generalize candidates.flatMap (Scan.findingsIn s.config disk s.project) = found at *
  generalize Scan.declared dirs disk s.project = i at *
  have hperm : r.actions.Perm (i.recordAll found).actions := hactions ▸ rank_perm _
  have hkeys : (r.actions.map (·.key)).Perm (i.actions.map (·.key)) :=
    Index.recordAll_keys found i ▸ hperm.map _
  have hopen : ∀ e ∈ r.unresolved, e.2 = naming found e.1 ∧ e.2 ≠ [] ∧ i.contains e.1 = false := by
    intro e he
    rw [hunresolved] at he
    exact (Index.mem_recordAll_unresolved hfresh.nothing).1 he
  have hrefs : ∀ a ∈ r.actions, a.references = naming found a.key :=
    fun a ha => hfresh.references (hperm.mem_iff.1 ha)
  constructor
  case keys => exact hkeys.nodup_iff.2 hfresh.keys
  case resolved =>
    intro a ha ref href
    rw [hrefs a ha] at href
    exact Finding.key_of_mem_naming href
  case openKeys =>
    constructor
    · rw [hunresolved, Index.recordAll_unresolved hfresh.nothing, List.map_map]
      exact ((Index.nodup_namedKeys found).filter _).map fun _ _ h => h
    · intro e he hk
      have := (hopen e he).2.2
      rw [Index.contains_iff.2 (hkeys.mem_iff.1 hk)] at this
      cases this
  case unresolved =>
    intro e he ref href
    rw [(hopen e he).1] at href
    exact Finding.key_of_mem_naming href
  case total =>
    rw [hunresolved]
    exact ((hperm.flatMap_right _).append_right _).trans (hfresh.accounts found)
  case safe_iff =>
    intro a ha
    rw [Action.safe_iff, hrefs a ha, Finding.naming_eq_nil_iff]
    exact Iff.rfl

/-- In the sample project one action calls the other, and names an action that does not exist. -/
theorem sample_scan_accounts :
    ∃ r found, (Sample.scanner.scan Sample.disk).1 = .ok r ∧
      Scan.findings ScanSettings.standardConfig Sample.disk Sample.project = .ok found ∧ found.length = 2 ∧
      r.actions.length = 2 ∧ r.Accounts found := by
  have hrun : ∃ r, (Sample.scanner.scan Sample.disk).1 = .ok r ∧ r.actions.length = 2 :=
    Outcome.ok_of_check (by decide +kernel)
  have hfound : ∃ found, Scan.findings ScanSettings.standardConfig Sample.disk Sample.project = .ok found ∧
      found.length = 2 := Outcome.ok_of_check (by decide +kernel)
  obtain ⟨r, hr, hlen⟩ := hrun
  obtain ⟨found, hfound, hcount⟩ := hfound
  obtain ⟨found', hfound', hacc⟩ := scan_accounts hr
  rw [show Scan.findings Sample.scanner.config Sample.disk Sample.scanner.project = .ok found from hfound] at hfound'
  cases hfound'
  exact ⟨r, found, hr, hfound, hcount, hlen, hacc⟩

end ActionSweep
