/-
The questions of a session, one after the other. What every answer keeps holds at all of them and at the end.
-/
import ActionSweep.Proofs.Session.Keeping

namespace ActionSweep.Session

open Dialog (answer Keeps Quiet)

/-- The questions that are asked, each with the session at that moment. -/
def prompts (s : Session) : List Text → Next → List (Session × Screen)
  | _, .leave => []
  | [], .ask screen => [(s, screen)]
  | line :: lines, .ask screen =>
    (s, screen) :: match answer line screen ((s.asked screen).typed line) with
      | .ok next s => prompts s lines next
      | .error _ _ => []

variable {s s' : Session} {lines : List Text} {next : Next} {screen screen' : Screen}

theorem prompts_zero (h : (s.prompts lines next)[0]? = some (s', screen)) : next = .ask screen ∧ s' = s := by
  cases next with
  | leave =>
    rw [prompts] at h
    cases h
  | ask first =>
    cases lines with
    | nil =>
      cases h
      exact ⟨rfl, rfl⟩
    | cons line lines =>
      cases h
      exact ⟨rfl, rfl⟩

/-- The next question comes from the answer to the one before. -/
theorem prompts_succ : ∀ {lines : List Text} {s : Session} {next : Next} {k : Nat},
    (s.prompts lines next)[k + 1]? = some (s', screen') →
    ∃ before screen line, (s.prompts lines next)[k]? = some (before, screen) ∧ lines[k]? = some line ∧
      answer line screen ((before.asked screen).typed line) = .ok (.ask screen') s'
  | lines, s, .leave, k, h => by
    rw [prompts] at h
    cases h
  | [], s, .ask screen, k, h => by cases h
  | line :: lines, s, .ask screen, k, h => by
    rw [prompts, List.getElem?_cons_succ] at h
    split at h
    · rename_i next' after hanswer
      cases k with
      | zero =>
        obtain ⟨rfl, rfl⟩ := prompts_zero h
        exact ⟨s, screen, line, rfl, rfl, hanswer⟩
      | succ k =>
        obtain ⟨before, screen1, line1, hprompt, hline, hanswer1⟩ := prompts_succ h
        refine ⟨before, screen1, line1, ?_, hline, hanswer1⟩
        rw [prompts, List.getElem?_cons_succ, hanswer]
        exact hprompt
    · cases h

/-- From every question on, the session goes on as one that starts with it. -/
theorem run_prompt : ∀ {lines : List Text} {s : Session} {next : Next} {k : Nat},
    (s.prompts lines next)[k]? = some (s', screen') → s.run lines next = s'.run (lines.drop k) (.ask screen')
  | lines, s, .leave, k, h => by
    rw [prompts] at h
    cases h
  | [], s, .ask screen, k, h => by
    cases k with
    | zero =>
      cases h
      rfl
    | succ k => cases h
  | line :: lines, s, .ask screen, k, h => by
    cases k with
    | zero =>
      cases h
      rfl
    | succ k =>
      rw [prompts, List.getElem?_cons_succ] at h
      rw [run, List.drop_succ_cons]
      cases hanswer : answer line screen ((s.asked screen).typed line) with
      | ok next' after =>
        rw [hanswer] at h
        exact run_prompt h
      | error f after =>
        rw [hanswer] at h
        cases h

/-- What every answer to a question keeps holds at each of them and at the end. -/
theorem run_keeps {I : Session → Prop} (good : Next → Prop) (asks : Screen → Prop) (hI : Quiet I)
    (hstep : ∀ screen, good (.ask screen) → asks screen → ∀ line, Keeps I good (answer line screen)) :
    ∀ {lines : List Text} {s : Session} {next : Next}, I s → good next → (∀ p ∈ s.prompts lines next, asks p.2) →
      (∀ p ∈ s.prompts lines next, I p.1 ∧ good (.ask p.2)) ∧ I (s.run lines next).2
  | lines, s, .leave, hs, _, _ => by
    rw [prompts, run]
    exact ⟨by simp, hs⟩
  | [], s, .ask screen, hs, hgood, _ => by
    refine ⟨fun p hp => ?_, ?_⟩
    · rw [prompts, List.mem_singleton] at hp
      subst hp
      exact ⟨hs, hgood⟩
    · exact hI (s.asked screen) _ (hI s _ hs (List.suffix_cons ..)) List.suffix_rfl
  | line :: lines, s, .ask screen, hs, hgood, hasks => by
    have hstart : I ((s.asked screen).typed line) :=
      hI (s.asked screen) _ (hI s _ hs (List.suffix_cons ..)) (List.suffix_cons ..)
    have hkeeps := hstep screen hgood (hasks _ (List.mem_cons_self ..)) line
    rw [prompts] at hasks ⊢
    rw [run]
    cases hanswer : answer line screen ((s.asked screen).typed line) with
    | ok next' after =>
      rw [hanswer] at hasks
      obtain ⟨hgood', hafter⟩ := hkeeps.ok hstart hanswer
      obtain ⟨hprompts, hend⟩ := run_keeps good asks hI hstep hafter hgood' fun p hp => hasks p (List.mem_cons_of_mem _ hp)
      refine ⟨fun p hp => ?_, hend⟩
      rcases List.mem_cons.1 hp with rfl | hp
      · exact ⟨hs, hgood⟩
      · exact hprompts p hp
    | error f after =>
      refine ⟨fun p hp => ?_, hkeeps.error hstart hanswer⟩
      rw [List.mem_singleton] at hp
      subst hp
      exact ⟨hs, hgood⟩

end ActionSweep.Session
