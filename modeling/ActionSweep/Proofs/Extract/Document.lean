/-
The walk over a document meets every list and object inside it: it ends well if none of them is nested
too deep, and then the references of each are among the references of the document.
-/
import ActionSweep.Extract.Document
import ActionSweep.Key
import ActionSweep.Proofs.Outcome

namespace ActionSweep.Extract

/-- A list or object inside a value, so many levels below it; the value itself is at level zero. -/
inductive Inside : Value → Nat → Value → Prop
  | here (v : Value) : Inside v 0 v
  | further {v c w : Value} {n : Nat} (hc : c ∈ containersIn v) (h : Inside c n w) : Inside v (n + 1) w

/-- Whether nothing inside a value is nested too deep. -/
def Fits (limit : DepthLimit) (v : Value) : Prop := ∀ n w, Inside v n w → limit.exceeded n = false

/-! ## How many steps a walk takes -/

/-- The steps that a value on the stack takes. -/
def stepsOf (v : Value) : Nat := max 1 (containerCount v)

/-- The steps that a stack takes. -/
def steps : List Value → Nat
  | [] => 0
  | v :: vs => stepsOf v + steps vs

theorem steps_append (vs ws : List Value) : steps (vs ++ ws) = steps vs + steps ws := by
  induction vs with
  | nil => exact (Nat.zero_add _).symm
  | cons v vs ih => rw [List.cons_append, steps, steps, ih, Nat.add_assoc]

theorem containersInItems_eq (items : List Value) : containersInItems items = steps (items.filter isContainer) := by
  induction items with
  | nil => rfl
  | cons v vs ih =>
    rw [containersInItems, ih]
    cases v with
    | list items | object fields =>
      rw [List.filter_cons_of_pos rfl, steps, stepsOf, containerCount]
      omega
    | _ => exact Nat.zero_add _

theorem containersInFields_eq (fields : List (Text × Value)) :
    containersInFields fields = containersInItems (fields.map (·.2)) := by
  induction fields with
  | nil => rfl
  | cons f fs ih => rw [containersInFields, ih, List.map_cons, containersInItems]

/-- The step for a value leaves its containers to be walked through. -/
theorem stepsOf_eq (v : Value) : stepsOf v = 1 + steps (containersIn v) := by
  cases v with
  | list items =>
    rw [stepsOf, containerCount, containersInItems_eq, containersIn]
    omega
  | object fields =>
    rw [stepsOf, containerCount, containersInFields_eq, containersInItems_eq, containersIn]
    omega
  | _ => rfl

/-- The step for the first value is paid, and its containers need what is left. -/
theorem steps_pushed {v : Value} {depth n : Nat} {stack : List (Value × Nat)}
    (hn : steps (((v, depth) :: stack).map (·.1)) ≤ n + 1) :
    steps (((containersIn v).map (·, depth + 1) ++ stack).map (·.1)) ≤ n := by
  rw [List.map_cons, steps, stepsOf_eq v] at hn
  rw [List.map_append, List.map_map, steps_append, show (Prod.fst ∘ fun c : Value => (c, depth + 1)) = id from rfl,
    List.map_id]
  omega

/-! ## Walks -/

/-- What is inside a value is the value itself or inside one of its containers. -/
theorem inside_cases {v w : Value} {n : Nat} (h : Inside v n w) :
    (n = 0 ∧ w = v) ∨ ∃ c ∈ containersIn v, ∃ m, n = m + 1 ∧ Inside c m w := by
  cases h with
  | here => exact .inl ⟨rfl, rfl⟩
  | further hc h => exact .inr ⟨_, hc, _, rfl, h⟩

theorem walk_runs {limit : DepthLimit} : ∀ (n : Nat) (stack : List (Value × Nat)),
    (∀ x ∈ stack, ∀ k w, Inside x.1 k w → limit.exceeded (x.2 + k) = false) →
    ∃ raws, walk limit n stack = .ok raws
  | 0, _, _ => ⟨_, rfl⟩
  | _ + 1, [], _ => ⟨_, rfl⟩
  | n + 1, (v, depth) :: stack, h => by
    have hv : limit.exceeded depth = false := h _ (List.mem_cons_self ..) 0 v (.here v)
    obtain ⟨raws, hraws⟩ := walk_runs n ((containersIn v).map (·, depth + 1) ++ stack) fun x hx k w hin => by
      rcases List.mem_append.1 hx with hx | hx
      · obtain ⟨c, hc, rfl⟩ := List.mem_map.1 hx
        have := h _ (List.mem_cons_self ..) (k + 1) w (.further hc hin)
        rwa [show depth + (k + 1) = depth + 1 + k by omega] at this
      · exact h x (List.mem_cons_of_mem _ hx) k w hin
    refine ⟨referencesAt v ++ raws, ?_⟩
    rw [walk, if_neg (by rw [hv]; decide), hraws]
    rfl

theorem walk_ok {limit : DepthLimit} : ∀ {n : Nat} {stack : List (Value × Nat)} {raws : List RawReference},
    steps (stack.map (·.1)) ≤ n → walk limit n stack = .ok raws →
    ∀ x ∈ stack, ∀ k w, Inside x.1 k w →
      limit.exceeded (x.2 + k) = false ∧ ∀ raw ∈ referencesAt w, raw ∈ raws
  | 0, x :: stack, _, hn, _ => by
    rw [List.map_cons, steps, stepsOf_eq] at hn
    omega
  | _, [], _, _, _ => by simp
  | n + 1, (v, depth) :: stack, raws, hn, h => by
    rw [walk] at h
    split at h
    · cases h
    rename_i hdepth
    obtain ⟨rest, hrest, rfl⟩ := Outcome.map_ok.1 h
    have ih := walk_ok (steps_pushed hn) hrest
    rintro x hx k w hin
    rcases List.mem_cons.1 hx with rfl | hx
    · rcases inside_cases hin with ⟨rfl, rfl⟩ | ⟨c, hc, m, rfl, hinside⟩
      · exact ⟨by simpa using hdepth, fun raw hraw => List.mem_append_left _ hraw⟩
      · obtain ⟨hm, hraws⟩ := ih (c, depth + 1) (List.mem_append_left _ (List.mem_map_of_mem hc)) m w hinside
        refine ⟨?_, fun raw hraw => List.mem_append_right _ (hraws raw hraw)⟩
        rwa [show depth + (m + 1) = depth + 1 + m by omega]
    · obtain ⟨hk, hraws⟩ := ih x (List.mem_append_right _ hx) k w hin
      exact ⟨hk, fun raw hraw => List.mem_append_right _ (hraws raw hraw)⟩

theorem document_steps (v : Value) : steps ([(v, 0)].map (·.1)) ≤ containerCount v + 2 := by
  show stepsOf v + 0 ≤ _
  unfold stepsOf
  omega

/-- A document is searched exactly if it nests no deeper than the limit. -/
theorem document_runs_iff {limit : DepthLimit} {v : Value} :
    (∃ raws, document v limit = .ok raws) ↔ Fits limit v := by
  constructor
  · rintro ⟨raws, h⟩ n w hin
    have := (walk_ok (document_steps v) h (v, 0) (List.mem_singleton_self _) n w hin).1
    rwa [Nat.zero_add] at this
  · intro h
    refine walk_runs (containerCount v + 2) [(v, 0)] fun x hx k w hin => ?_
    rw [List.mem_singleton] at hx
    subst hx
    rw [Nat.zero_add]
    exact h k w hin

/-- A document that nests no deeper than the limit has all references of what is inside it. -/
theorem document_ok {limit : DepthLimit} {v : Value} (h : Fits limit v) :
    ∃ raws, document v limit = .ok raws ∧ ∀ n w, Inside v n w → ∀ raw ∈ referencesAt w, raw ∈ raws := by
  obtain ⟨raws, hraws⟩ := document_runs_iff.2 h
  exact ⟨raws, hraws, fun n w hin =>
    (walk_ok (document_steps v) hraws (v, 0) (List.mem_singleton_self _) n w hin).2⟩

/-! ## Fields -/

/-- A text field of an object has its references among those of the object. -/
theorem mem_ownReferences {name value : Text} {raw : RawReference} : ∀ {fields : List (Text × Value)},
    (name, .text value) ∈ fields → raw ∈ textField name value → raw ∈ ownReferences fields
  | [], h, _ => by cases h
  | (n, v) :: fields, h, hraw => by
    rcases List.mem_cons.1 h with he | hrest
    · cases he
      exact List.mem_append_left _ hraw
    · have ih := mem_ownReferences hrest hraw
      cases v with
      | text t => exact List.mem_append_right _ ih
      | _ => exact ih

/-- A field that holds a whole reference gives it as it is. -/
theorem textField_direct {name : Text} {p : Provenance} (h : directField? name = some p) (value : Text) :
    textField name value = [⟨value, p⟩] := by
  unfold textField
  rw [h]

/-- A document calls the action of a key: some object inside it spells the key in a field for a whole reference. -/
inductive Calls (v : Value) (key : Text) : Prop
  | field {depth : Nat} {fields : List (Text × Value)} (hinside : Inside v depth (.object fields)) {name value : Text}
    (hfield : (name, .text value) ∈ fields) (hname : name = "api_file" ∨ name = "exec" ∨ name = "module")
    (hkey : Key.ofReference .action value = some key)

/-- A call is among the references of a document that nests no deeper than the limit. -/
theorem Calls.found {limit : DepthLimit} {v : Value} {key : Text} (h : Calls v key) (hfits : Fits limit v) :
    ∃ raws, document v limit = .ok raws ∧ ∃ raw ∈ raws, Key.ofReference .action raw.path = some key := by
  obtain ⟨hinside, hfield, hname, hkey⟩ := h
  rename_i depth fields name value
  obtain ⟨p, hp⟩ : ∃ p, directField? name = some p := by
    rcases hname with rfl | rfl | rfl
    · exact ⟨_, rfl⟩
    · exact ⟨_, rfl⟩
    · exact ⟨_, rfl⟩
  obtain ⟨raws, hraws, hall⟩ := document_ok hfits
  refine ⟨raws, hraws, ⟨value, p⟩, hall depth _ hinside _ (mem_ownReferences hfield ?_), hkey⟩
  rw [textField_direct hp]
  exact List.mem_singleton_self _

end ActionSweep.Extract

namespace ActionSweep.Value

theorem mem_of_field? {name : Text} {v : Value} : ∀ {fields : List (Text × Value)},
    field? fields name = some v → (name, v) ∈ fields
  | [], h => by cases h
  | (n, w) :: fields, h => by
    rw [field?] at h
    split at h
    · rename_i hn
      cases h
      rw [hn]
      exact List.mem_cons_self ..
    · exact List.mem_cons_of_mem _ (mem_of_field? h)

theorem mem_of_fieldD {name : Text} {v : Value} {fields : List (Text × Value)} (h : fieldD fields name = v)
    (hv : v ≠ .null) : (name, v) ∈ fields := by
  unfold fieldD at h
  cases hf : field? fields name with
  | none =>
    rw [hf] at h
    exact absurd h.symm hv
  | some w =>
    rw [hf] at h
    exact mem_of_field? (hf.trans (congrArg some h))

end ActionSweep.Value
