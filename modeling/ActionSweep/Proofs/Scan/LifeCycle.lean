/-
The life of a scanner. Whatever was asked of it before, its state changes only as it may, a scan starts in
a state of rest and ends in another one, and what the scan says depends on the files alone.
-/
import Mathlib.Data.List.Chain
import ActionSweep.Proofs.Sample

namespace ActionSweep

namespace ScanState

/-- A change of state that is allowed. -/
def LeadsTo (a b : ScanState) : Prop := b ∈ a.next

instance (a b : ScanState) : Decidable (a.LeadsTo b) := inferInstanceAs (Decidable (b ∈ a.next))

/-- The states in which no scan is under way. -/
def Resting (s : ScanState) : Prop := s = idle ∨ s = classified ∨ s = failed

instance (s : ScanState) : Decidable s.Resting := inferInstanceAs (Decidable (_ ∨ _ ∨ _))

theorem advance_of_leadsTo {a b : ScanState} (h : a.LeadsTo b) : a.advance b = .ok b :=
  if_pos (List.contains_iff_mem.2 h)

theorem advance_of_not_leadsTo {a b : ScanState} (h : ¬ a.LeadsTo b) : a.advance b = .error (.badTransition a b) :=
  if_neg fun hc => h (List.contains_iff_mem.1 hc)

theorem Resting.idle_next {s : ScanState} (h : s.Resting) (hs : s ≠ idle) : s.LeadsTo idle := by
  cases s <;> first | decide | exact absurd rfl hs | exact absurd h (by decide)

theorem not_resting_iff {s : ScanState} : ¬ s.Resting ↔ s = discovering ∨ s = extracting := by
  cases s <;> decide

end ScanState

/-! ## One scan -/

namespace Scan

/-- What a scan says, in whatever state it was started. -/
def outcome (config : ScanConfig) (disk : Disk) (project : Path) : Except Fault ScanResult :=
  match discover config disk project with
  | .error f => .error f
  | .ok found => extract config disk project found >>= finish config disk project

end Scan

namespace Scanner

variable {s : Scanner} {disk : Disk}

theorem advance_of_leadsTo {target : ScanState} (h : s.state.LeadsTo target) : s.advance target = .ok (s.moved target) := by
  unfold advance
  rw [ScanState.advance_of_leadsTo h]
  rfl

theorem advance_of_not_leadsTo {target : ScanState} (h : ¬ s.state.LeadsTo target) :
    s.advance target = .error (.badTransition s.state target) := by
  unfold advance
  rw [ScanState.advance_of_not_leadsTo h]
  rfl

theorem readied_of_resting (h : s.state.Resting) : s.readied = .ok (s.moved .idle) := by
  unfold readied
  split
  · rename_i hidle
    rw [moved, ← hidle]
  · rename_i hidle
    exact advance_of_leadsTo (h.idle_next hidle)

theorem readied_of_busy (h : ¬ s.state.Resting) : s.readied = .error (.badTransition s.state .idle) := by
  unfold readied
  rcases ScanState.not_resting_iff.1 h with hs | hs
  · rw [if_neg (by rw [hs]; decide)]
    exact advance_of_not_leadsTo (by rw [hs]; decide)
  · rw [if_neg (by rw [hs]; decide)]
    exact advance_of_not_leadsTo (by rw [hs]; decide)

/-- A scan from a state of rest ends in one of two others, which tells whether there is a result. -/
theorem scan_of_resting (h : s.state.Resting) : s.scan disk =
    match Scan.outcome s.config disk s.project with
    | .ok r => (.ok r, s.moved .classified)
    | .error f => (.error f, s.moved .failed) := by
  unfold scan Scan.outcome
  rw [readied_of_resting h]
  simp only [moved]
  cases Scan.discover s.config disk s.project with
  | error f => rfl
  | ok found =>
    dsimp only
    cases Scan.extract s.config disk s.project found >>= Scan.finish s.config disk s.project with
    | error f => rfl
    | ok r => rfl

/-- During a scan no other one starts. -/
theorem scan_of_busy (h : ¬ s.state.Resting) : s.scan disk = (.error (.badTransition s.state .idle), s) := by
  unfold scan
  rw [readied_of_busy h]

end Scanner

/-! ## Calls -/

/-- What is asked of a scanner. The files may have changed in any way since the call before, so a scan comes
with those that it finds. -/
inductive Call
  | advance (target : ScanState)
  | scan (disk : Disk)

namespace Scanner

/-- A scanner after a call. A change of state that is refused leaves it as it was. -/
def called (s : Scanner) : Call → Scanner
  | .advance target =>
    match s.advance target with
    | .ok s' => s'
    | .error _ => s
  | .scan disk => (s.scan disk).2

def after (s : Scanner) (calls : List Call) : Scanner := calls.foldl called s

/-- A call changes nothing but the state. -/
theorem called_eq_moved (s : Scanner) (c : Call) : ∃ state, s.called c = s.moved state := by
  cases c with
  | advance target =>
    by_cases h : s.state.LeadsTo target
    · exact ⟨target, by rw [called, advance_of_leadsTo h]⟩
    · exact ⟨s.state, by rw [called, advance_of_not_leadsTo h]; rfl⟩
  | scan disk =>
    by_cases h : s.state.Resting
    · rw [called, scan_of_resting h]
      cases Scan.outcome s.config disk s.project with
      | ok r => exact ⟨.classified, rfl⟩
      | error f => exact ⟨.failed, rfl⟩
    · exact ⟨s.state, by rw [called, scan_of_busy h]; rfl⟩

theorem after_eq_moved (s : Scanner) (calls : List Call) : ∃ state, s.after calls = s.moved state := by
  induction calls generalizing s with
  | nil => exact ⟨s.state, rfl⟩
  | cons c calls ih =>
    obtain ⟨middle, hmiddle⟩ := s.called_eq_moved c
    obtain ⟨state, hstate⟩ := ih (s.moved middle)
    exact ⟨state, by rw [after, List.foldl_cons, hmiddle]; exact hstate⟩

end Scanner

/-! ## Every change of state -/

/-- A scanner with the states that it has been in, in order. -/
structure Traced where
  scanner : Scanner
  trail : List ScanState

namespace Traced

def new (project : Path) (config : ScanConfig) : Traced := ⟨.new project config, [.idle]⟩

/-- Goes over to another state if that is allowed, and notes it. -/
def advance (t : Traced) (target : ScanState) : Except Fault Traced :=
  (t.scanner.advance target).map fun s => ⟨s, t.trail ++ [target]⟩

/-- The end of a scan with a fault. -/
def fail (t : Traced) (f : Fault) : Except Fault ScanResult × Traced :=
  match t.advance .failed with
  | .ok t => (.error f, t)
  | .error f => (.error f, t)

/-- A scan in which every change of state is asked for and noted. -/
def scan (t : Traced) (disk : Disk) : Except Fault ScanResult × Traced :=
  match if t.scanner.state = .idle then .ok t else t.advance .idle with
  | .error f => (.error f, t)
  | .ok t =>
    match t.advance .discovering with
    | .error f => (.error f, t)
    | .ok t =>
      match Scan.discover t.scanner.config disk t.scanner.project with
      | .error f => t.fail f
      | .ok found =>
        match t.advance .extracting with
        | .error f => t.fail f
        | .ok t =>
          match Scan.extract t.scanner.config disk t.scanner.project found >>=
              Scan.finish t.scanner.config disk t.scanner.project with
          | .error f => t.fail f
          | .ok r =>
            match t.advance .classified with
            | .error f => (.error f, t)
            | .ok t => (.ok r, t)

def called (t : Traced) : Call → Traced
  | .advance target =>
    match t.advance target with
    | .ok t' => t'
    | .error _ => t
  | .scan disk => (t.scan disk).2

def after (t : Traced) (calls : List Call) : Traced := calls.foldl called t

/-- The states follow one another as they may, up to the one at this moment. -/
structure Legal (t : Traced) : Prop where
  chain : t.trail.IsChain ScanState.LeadsTo
  last : t.trail.getLast? = some t.scanner.state

theorem legal_new (project : Path) (config : ScanConfig) : (new project config).Legal := ⟨.singleton _, rfl⟩

variable {t t' : Traced} {disk : Disk}

theorem Legal.advance (h : t.Legal) {target : ScanState} (ht : t.advance target = .ok t') : t'.Legal := by
  obtain ⟨s, hs, rfl⟩ := Outcome.map_ok.1 ht
  by_cases hleads : t.scanner.state.LeadsTo target
  · rw [Scanner.advance_of_leadsTo hleads] at hs
    cases hs
    refine ⟨List.isChain_append.2 ⟨h.chain, .singleton _, ?_⟩, List.getLast?_concat⟩
    intro a ha b hb
    rw [h.last] at ha
    cases ha
    cases hb
    exact hleads
  · rw [Scanner.advance_of_not_leadsTo hleads] at hs
    cases hs

theorem Legal.fail (h : t.Legal) (f : Fault) : (t.fail f).2.Legal := by
  unfold Traced.fail
  split
  · rename_i hfailed
    exact h.advance hfailed
  · exact h

/-- Every state on the way of a scan follows the one before as it may. -/
theorem Legal.scan (h : t.Legal) (disk : Disk) : (t.scan disk).2.Legal := by
  unfold Traced.scan
  split
  · exact h
  · rename_i idle hidle
    have h : idle.Legal := by
      split at hidle
      · cases hidle
        exact h
      · exact h.advance hidle
    split
    · exact h
    · rename_i discovering hdiscovering
      replace h := h.advance hdiscovering
      split
      · exact h.fail _
      · split
        · exact h.fail _
        · rename_i extracting hextracting
          replace h := h.advance hextracting
          split
          · exact h.fail _
          · split
            · exact h
            · rename_i hclassified
              exact h.advance hclassified

theorem Legal.called (h : t.Legal) (c : Call) : (t.called c).Legal := by
  cases c with
  | advance target =>
    unfold Traced.called
    dsimp only
    split
    · rename_i ht
      exact h.advance ht
    · exact h
  | scan disk => exact h.scan disk

theorem Legal.after (h : t.Legal) (calls : List Call) : (t.after calls).Legal := by
  induction calls generalizing t with
  | nil => exact h
  | cons c calls ih => exact ih (h.called c)

/-! Asking for the changes of state makes no difference: within a scan none is refused. -/

theorem advance_of_leadsTo {target : ScanState} (h : t.scanner.state.LeadsTo target) :
    t.advance target = .ok ⟨t.scanner.moved target, t.trail ++ [target]⟩ := by
  unfold advance
  rw [Scanner.advance_of_leadsTo h]
  rfl

theorem fail_scanner (h : t.scanner.state.LeadsTo .failed) (f : Fault) :
    (t.fail f).1 = .error f ∧ (t.fail f).2.scanner = t.scanner.moved .failed := by
  unfold fail
  rw [advance_of_leadsTo h]
  exact ⟨rfl, rfl⟩

theorem scan_scanner (t : Traced) (disk : Disk) :
    (t.scan disk).1 = (t.scanner.scan disk).1 ∧ (t.scan disk).2.scanner = (t.scanner.scan disk).2 := by
  by_cases hrest : t.scanner.state.Resting
  -- from here on the states are known, and each change between them is allowed
  · have hidle : ∃ trail, (if t.scanner.state = .idle then .ok t else t.advance .idle) =
        .ok (⟨t.scanner.moved .idle, trail⟩ : Traced) := by
      split
      · rename_i hs
        exact ⟨t.trail, by rw [Scanner.moved, ← hs]⟩
      · rename_i hs
        exact ⟨_, advance_of_leadsTo (hrest.idle_next hs)⟩
    obtain ⟨trail, hidle⟩ := hidle
    rw [Scanner.scan_of_resting hrest]
    unfold scan Scan.outcome
    simp only [hidle]
    rw [advance_of_leadsTo (show ScanState.LeadsTo .idle .discovering by decide)]
    simp only [Scanner.moved]
    cases Scan.discover t.scanner.config disk t.scanner.project with
    | error f => exact fail_scanner (show ScanState.LeadsTo .discovering .failed by decide) f
    | ok found =>
      simp only
      rw [advance_of_leadsTo (show ScanState.LeadsTo .discovering .extracting by decide)]
      simp only [Scanner.moved]
      cases Scan.extract t.scanner.config disk t.scanner.project found >>=
          Scan.finish t.scanner.config disk t.scanner.project with
      | error f => exact fail_scanner (show ScanState.LeadsTo .extracting .failed by decide) f
      | ok r =>
        simp only
        rw [advance_of_leadsTo (show ScanState.LeadsTo .extracting .classified by decide)]
        exact ⟨rfl, rfl⟩
  · rw [Scanner.scan_of_busy hrest]
    unfold scan advance
    rcases ScanState.not_resting_iff.1 hrest with hs | hs
    · rw [if_neg (by rw [hs]; decide), Scanner.advance_of_not_leadsTo (by rw [hs]; decide)]
      exact ⟨rfl, rfl⟩
    · rw [if_neg (by rw [hs]; decide), Scanner.advance_of_not_leadsTo (by rw [hs]; decide)]
      exact ⟨rfl, rfl⟩

theorem called_scanner (t : Traced) (c : Call) : (t.called c).scanner = t.scanner.called c := by
  cases c with
  | advance target =>
    unfold called Scanner.called advance
    dsimp only
    cases t.scanner.advance target with
    | ok s => rfl
    | error f => rfl
  | scan disk => exact (scan_scanner t disk).2

theorem after_scanner (t : Traced) (calls : List Call) : (t.after calls).scanner = t.scanner.after calls := by
  induction calls generalizing t with
  | nil => rfl
  | cons c calls ih =>
    unfold after Scanner.after at ih ⊢
    rw [List.foldl_cons, List.foldl_cons, ih, called_scanner]

end Traced

/-! ## The life cycle -/

namespace Scanner

variable {project : Path} {config : ScanConfig} {calls : List Call}

/-- Only the state of a scanner depends on what was asked of it before. -/
theorem after_new (h : ((new project config).after calls).state.Resting) (disk : Disk) :
    ((new project config).after calls).scan disk =
      match Scan.outcome config disk project with
      | .ok r => (.ok r, ⟨project, config, .classified⟩)
      | .error f => (.error f, ⟨project, config, .failed⟩) := by
  obtain ⟨state, hstate⟩ := (new project config).after_eq_moved calls
  rw [hstate] at h ⊢
  exact scan_of_resting h

/-- A scan says what the first scan of a new scanner says, and its last state tells whether that is a result. -/
theorem scan_after (h : ((new project config).after calls).state.Resting) (disk : Disk) :
    (((new project config).after calls).scan disk).1 = ((new project config).scan disk).1 ∧
      ((((new project config).after calls).scan disk).2.state = .classified ↔
        ∃ r, (((new project config).after calls).scan disk).1 = .ok r) ∧
      ((((new project config).after calls).scan disk).2.state = .failed ↔
        ∃ f, (((new project config).after calls).scan disk).1 = .error f) := by
  have hnew := after_new (show ((new project config).after []).state.Resting from .inl rfl) disk
  rw [show (new project config).after [] = new project config from rfl] at hnew
  rw [after_new h, hnew]
  cases Scan.outcome config disk project with
  | ok r => simp
  | error f => simp

end Scanner

/-- Whatever was asked of a scanner, in any order and with any files: its state has only ever changed as it may.
A change of state that is not allowed is refused and leaves the state as it is. A scan in a state of rest ends
in the state that tells whether it has a result, and says what the first scan of a new scanner would say; any
other scan is refused and leaves the state as it is. -/
theorem life_cycle (project : Path) (config : ScanConfig) (calls : List Call) :
    let s := (Scanner.new project config).after calls
    let t := (Traced.new project config).after calls
    (t.scanner = s ∧ t.trail.IsChain ScanState.LeadsTo ∧ t.trail.getLast? = some s.state) ∧
      (∀ target, if s.state.LeadsTo target then s.advance target = .ok (s.moved target)
        else s.advance target = .error (.badTransition s.state target) ∧ s.called (.advance target) = s) ∧
      ∀ disk,
        (s.state = .idle ∨ s.state = .classified ∨ s.state = .failed →
          (s.scan disk).1 = ((Scanner.new project config).scan disk).1 ∧
          ((s.scan disk).2.state = .classified ↔ ∃ r, (s.scan disk).1 = .ok r) ∧
          ((s.scan disk).2.state = .failed ↔ ∃ f, (s.scan disk).1 = .error f)) ∧
        (s.state = .discovering ∨ s.state = .extracting →
          s.scan disk = (.error (.badTransition s.state .idle), s)) := by
  intro s t
  have hscanner : t.scanner = s := Traced.after_scanner _ calls
  have hlegal : t.Legal := (Traced.legal_new project config).after calls
  refine ⟨⟨hscanner, hlegal.chain, hscanner ▸ hlegal.last⟩, fun target => ?_, fun disk => ⟨fun h => ?_, fun h => ?_⟩⟩
  · split
    · rename_i h
      exact Scanner.advance_of_leadsTo h
    · rename_i h
      have hrefused := Scanner.advance_of_not_leadsTo h
      exact ⟨hrefused, by rw [Scanner.called, hrefused]⟩
  · exact Scanner.scan_after h disk
  · exact Scanner.scan_of_busy (ScanState.not_resting_iff.2 h)

/-- A scan with a result, a change of state that is refused, and a scan of a disk without folders. -/
def Sample.calls : List Call := [.scan disk, .advance .extracting, .scan ⟨.empty, [], "/"⟩]

/-- After these calls, what was allowed of them has happened, and the next scan says what the first one said. While
a scan is under way, none starts. -/
theorem sample_life_cycle :
    ((Traced.new Sample.project ScanSettings.standardConfig).after Sample.calls).trail =
        [.idle, .discovering, .extracting, .classified, .idle, .discovering, .failed] ∧
      (((Sample.scanner.after Sample.calls).scan Sample.disk).1 = (Sample.scanner.scan Sample.disk).1 ∧
        ((Sample.scanner.after Sample.calls).scan Sample.disk).2.state = .classified) ∧
      ((Sample.scanner.after [.advance .discovering]).scan Sample.disk).1 = .error (.badTransition .discovering .idle) := by
  have htrail : ((Traced.new Sample.project ScanSettings.standardConfig).after Sample.calls).trail =
      [.idle, .discovering, .extracting, .classified, .idle, .discovering, .failed] := by decide +kernel
  have hrun : ∃ r, (Sample.scanner.scan Sample.disk).1 = .ok r ∧ r.actions.length = 2 :=
    Outcome.ok_of_check (by decide +kernel)
  obtain ⟨r, hr, -⟩ := hrun
  obtain ⟨⟨-, -, hlast⟩, -, hscans⟩ := life_cycle Sample.project ScanSettings.standardConfig Sample.calls
  obtain ⟨-, hallowed, hbusy⟩ := life_cycle Sample.project ScanSettings.standardConfig [.advance .discovering]
  rw [htrail] at hlast
  have hnew : Sample.scanner = .new Sample.project ScanSettings.standardConfig := rfl
  rw [hnew] at hr ⊢
  have hfailed := (Option.some.inj hlast).symm
  obtain ⟨hsame, hclassified, -⟩ := (hscans Sample.disk).1 (.inr (.inr hfailed))
  refine ⟨htrail, ⟨hsame, hclassified.2 ⟨r, hsame.trans hr⟩⟩, ?_⟩
  rw [(hbusy Sample.disk).2 (.inl rfl)]
  rfl

end ActionSweep
