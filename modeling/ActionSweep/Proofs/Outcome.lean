/-
Work that may end in a fault: when a chain, a list or a fold of such work succeeds, and with what.
A fold whose steps succeed or fail by their item alone succeeds exactly if every item is fit, and
what it shows of its state is the plain fold of what its steps show.
-/
import Mathlib.Data.List.Forall2
import Mathlib.Logic.Relation

namespace ActionSweep.Outcome

variable {ε α β σ τ : Type}

instance decidableEqOk [DecidableEq α] (x : Except ε α) (a : α) : Decidable (x = .ok a) :=
  match x with
  | .ok b => decidable_of_iff (b = a) (by simp)
  | .error _ => isFalse nofun

/-! ## Chains -/

theorem bind_ok {x : Except ε α} {f : α → Except ε β} {b : β} :
    x >>= f = .ok b ↔ ∃ a, x = .ok a ∧ f a = .ok b := by
  cases x with
  | error e => simp [bind, Except.bind]
  | ok a => simp [bind, Except.bind]

theorem map_ok {x : Except ε α} {f : α → β} {b : β} :
    x.map f = .ok b ↔ ∃ a, x = .ok a ∧ f a = b := by
  cases x with
  | error e => simp [Except.map]
  | ok a => simp [Except.map]

theorem map_error {x : Except ε α} {f : α → β} {e : ε} : x.map f = .error e ↔ x = .error e := by
  cases x with
  | error e' => simp [Except.map]
  | ok a => simp [Except.map]

theorem mapError_ok {ε' : Type} {x : Except ε α} {f : ε → ε'} {a : α} : x.mapError f = .ok a ↔ x = .ok a := by
  cases x with
  | error e => simp [Except.mapError]
  | ok b => simp [Except.mapError]

/-- The answer to a question, no if it ends in a fault. -/
def holds (x : Except ε Bool) : Bool :=
  match x with
  | .ok b => b
  | .error _ => false

/-- A check of the result that comes out true shows that there is one. -/
theorem ok_of_check {x : Except ε α} {p : α → Prop} [DecidablePred p]
    (h : (match x with
      | .ok a => decide (p a)
      | .error _ => false) = true) : ∃ a, x = .ok a ∧ p a := by
  cases x with
  | error e => cases h
  | ok a => exact ⟨a, rfl, of_decide_eq_true h⟩

theorem error_of_check {x : Except ε α} {p : ε → Prop} [DecidablePred p]
    (h : (match x with
      | .ok _ => false
      | .error e => decide (p e)) = true) : ∃ e, x = .error e ∧ p e := by
  cases x with
  | error e => exact ⟨e, rfl, of_decide_eq_true h⟩
  | ok a => cases h

theorem done_of_check {x : EStateM.Result ε σ α} {p : α → σ → Prop} [∀ a s, Decidable (p a s)]
    (h : (match x with
      | .ok a s => decide (p a s)
      | .error _ _ => false) = true) : ∃ a s, x = .ok a s ∧ p a s := by
  cases x with
  | error e s => cases h
  | ok a s => exact ⟨a, s, rfl, of_decide_eq_true h⟩

theorem failed_of_check {x : EStateM.Result ε σ α} {p : ε → σ → Prop} [∀ e s, Decidable (p e s)]
    (h : (match x with
      | .ok _ _ => false
      | .error e s => decide (p e s)) = true) : ∃ e s, x = .error e s ∧ p e s := by
  cases x with
  | error e s => exact ⟨e, s, rfl, of_decide_eq_true h⟩
  | ok a s => cases h

/-! ## Work on a state -/

/-- The state that some work leaves behind, whether it ends well or not. -/
def left : EStateM.Result ε σ α → σ
  | .ok _ s => s
  | .error _ s => s

theorem work_bind_ok {x : EStateM ε σ α} {f : α → EStateM ε σ β} {s s' : σ} {b : β} :
    (x >>= f) s = .ok b s' ↔ ∃ a moment, x s = .ok a moment ∧ f a moment = .ok b s' := by
  show EStateM.bind x f s = _ ↔ _
  unfold EStateM.bind
  cases x s with
  | ok a moment => simp
  | error e moment => simp

theorem work_bind_error {x : EStateM ε σ α} {f : α → EStateM ε σ β} {s s' : σ} {e : ε} :
    (x >>= f) s = .error e s' ↔ x s = .error e s' ∨ ∃ a moment, x s = .ok a moment ∧ f a moment = .error e s' := by
  show EStateM.bind x f s = _ ↔ _
  unfold EStateM.bind
  cases x s with
  | ok a moment => simp
  | error e' moment => simp

/-- What is reached by one piece of work and then by another is reached by both. -/
theorem reaches_bind {R : σ → σ → Prop} {x : EStateM ε σ α} {f : α → EStateM ε σ β} {s : σ}
    (hx : Relation.ReflTransGen R s (left (x s)))
    (hf : ∀ a s', x s = .ok a s' → Relation.ReflTransGen R s' (left (f a s'))) :
    Relation.ReflTransGen R s (left ((x >>= f) s)) := by
  show Relation.ReflTransGen R s (left (EStateM.bind x f s))
  unfold EStateM.bind
  cases h : x s with
  | ok a s' =>
    rw [h] at hx
    exact hx.trans (hf a s' h)
  | error e s' =>
    rw [h] at hx
    exact hx

/-! ## Lists -/

theorem mapM_ok {f : α → Except ε β} :
    ∀ {l : List α} {ys : List β}, l.mapM f = .ok ys ↔ List.Forall₂ (fun x y => f x = .ok y) l ys
  | [], ys => by
    rw [List.mapM_nil, List.forall₂_nil_left_iff]
    constructor
    · intro h; cases h; rfl
    · rintro rfl; rfl
  | x :: l, ys => by
    rw [List.mapM_cons, bind_ok]
    constructor
    · rintro ⟨y, hy, h⟩
      obtain ⟨ys', hys, h⟩ := bind_ok.1 h
      cases h
      exact .cons hy (mapM_ok.1 hys)
    · rintro (_ | ⟨hy, h⟩)
      exact ⟨_, hy, bind_ok.2 ⟨_, mapM_ok.2 h, rfl⟩⟩

theorem mapM_runs {f : α → Except ε β} :
    ∀ {l : List α}, (∀ a ∈ l, ∃ b, f a = .ok b) → ∃ ys, l.mapM f = .ok ys
  | [], _ => ⟨[], rfl⟩
  | a :: l, h => by
    obtain ⟨b, hb⟩ := h a (List.mem_cons_self ..)
    obtain ⟨ys, hys⟩ := mapM_runs fun c hc => h c (List.mem_cons_of_mem a hc)
    exact ⟨b :: ys, by rw [List.mapM_cons]; exact bind_ok.2 ⟨b, hb, bind_ok.2 ⟨ys, hys, rfl⟩⟩⟩

theorem mapM_error {f : α → Except ε β} {e : ε} : ∀ {l : List α}, l.mapM f = .error e → ∃ a ∈ l, f a = .error e
  | [], h => by
    rw [List.mapM_nil] at h
    cases h
  | a :: l, h => by
    rw [List.mapM_cons] at h
    cases ha : f a with
    | error e' =>
      rw [ha] at h
      cases h
      exact ⟨a, List.mem_cons_self .., ha⟩
    | ok b =>
      rw [ha] at h
      cases hl : l.mapM f with
      | error e' =>
        obtain ⟨c, hc, he⟩ := mapM_error hl
        simp only [bind, Except.bind, hl] at h
        cases h
        exact ⟨c, List.mem_cons_of_mem a hc, he⟩
      | ok ys =>
        simp only [bind, Except.bind, hl] at h
        cases h

theorem mapM_eq {f : α → Except ε β} {g : α → β} {l : List α} (h : ∀ a ∈ l, f a = .ok (g a)) : l.mapM f = .ok (l.map g) := by
  rw [mapM_ok, List.forall₂_map_right_iff, List.forall₂_same]
  exact h

theorem filterAuxM_ok {p : α → Except ε Bool} :
    ∀ {l acc res : List α}, List.filterAuxM p l acc = .ok res ↔
      (∀ a ∈ l, ∃ b, p a = .ok b) ∧ res = (l.filter fun a => holds (p a)).reverse ++ acc
  | [], acc, res => by
    simp only [List.filterAuxM, List.filter_nil, List.reverse_nil, List.nil_append]
    constructor
    · intro h; cases h; simp
    · rintro ⟨-, rfl⟩; rfl
  | x :: l, acc, res => by
    simp only [List.filterAuxM]
    rw [bind_ok]
    constructor
    · rintro ⟨b, hb, h⟩
      obtain ⟨h1, rfl⟩ := filterAuxM_ok.1 h
      refine ⟨fun a ha => ?_, ?_⟩
      · rcases List.mem_cons.1 ha with rfl | ha
        · exact ⟨b, hb⟩
        · exact h1 a ha
      · cases b <;> simp [holds, hb]
    · rintro ⟨h1, rfl⟩
      obtain ⟨b, hb⟩ := h1 x (List.mem_cons_self ..)
      refine ⟨b, hb, filterAuxM_ok.2 ⟨fun a ha => h1 a (List.mem_cons_of_mem _ ha), ?_⟩⟩
      cases b <;> simp [holds, hb]

theorem filterM_ok {p : α → Except ε Bool} {l res : List α} :
    l.filterM p = .ok res ↔
      (∀ a ∈ l, ∃ b, p a = .ok b) ∧ res = l.filter fun a => holds (p a) := by
  unfold List.filterM
  rw [bind_ok]
  constructor
  · rintro ⟨r, hr, h⟩
    obtain ⟨h1, rfl⟩ := filterAuxM_ok.1 hr
    cases h
    exact ⟨h1, by simp⟩
  · rintro ⟨h1, rfl⟩
    exact ⟨_, filterAuxM_ok.2 ⟨h1, rfl⟩, by simp [pure, Except.pure]⟩

/-! ## Folds -/

/-- How a fold behaves whose steps succeed by their item alone and change what is seen of the state
in a plain way. -/
structure Steps (f : σ → α → Except ε σ) (fit : α → Prop) (view : σ → τ) (step : τ → α → τ) : Prop where
  runs : ∀ s a, fit a → ∃ s', f s a = .ok s'
  needs : ∀ s a s', f s a = .ok s' → fit a ∧ view s' = step (view s) a

variable {f : σ → α → Except ε σ} {fit : α → Prop} {view : σ → τ} {step : τ → α → τ}

theorem Steps.foldlM_ok (h : Steps f fit view step) :
    ∀ {l : List α} {s s' : σ}, l.foldlM f s = .ok s' →
      (∀ a ∈ l, fit a) ∧ view s' = l.foldl step (view s)
  | [], s, s', hs => by
    rw [List.foldlM_nil] at hs
    cases hs
    simp
  | a :: l, s, s', hs => by
    rw [List.foldlM_cons] at hs
    obtain ⟨s1, h1, hs⟩ := bind_ok.1 hs
    obtain ⟨hfit, hview⟩ := h.needs s a s1 h1
    obtain ⟨hrest, hv⟩ := h.foldlM_ok hs
    refine ⟨fun b hb => ?_, by rw [hv, hview, List.foldl_cons]⟩
    rcases List.mem_cons.1 hb with rfl | hb
    · exact hfit
    · exact hrest b hb

theorem Steps.foldlM_runs (h : Steps f fit view step) :
    ∀ {l : List α} (s : σ), (∀ a ∈ l, fit a) → ∃ s', l.foldlM f s = .ok s'
  | [], s, _ => ⟨s, rfl⟩
  | a :: l, s, hl => by
    obtain ⟨s1, h1⟩ := h.runs s a (hl a (List.mem_cons_self ..))
    obtain ⟨s', hs'⟩ := h.foldlM_runs s1 fun b hb => hl b (List.mem_cons_of_mem _ hb)
    exact ⟨s', by rw [List.foldlM_cons]; exact bind_ok.2 ⟨s1, h1, hs'⟩⟩

end ActionSweep.Outcome
