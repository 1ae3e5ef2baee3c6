/-
The walk with a stack finds what a descent into the document finds. It stops if the limit is negative or some list or
object is deeper than the limit; otherwise it gives the references of the document by recursion, in which an object has
those of its own text fields first and then those of its lists and objects.
-/
import ActionSweep.Proofs.Extract.Document
import ActionSweep.Proofs.Nesting

namespace ActionSweep.Extract

open Value (NestedAt)

/-! ## References by recursion -/

/-- The references of a field: three names hold a whole reference, three may hold URLs, and only texts count. -/
def fieldReferences (name : Text) : Value → List RawReference
  | .text t =>
    if name = "api_file" then [⟨t, .queueFileField⟩]
    else if name = "exec" then [⟨t, .execField⟩]
    else if name = "module" then [⟨t, .moduleField⟩]
    else if name = "value" ∨ name = "url" ∨ name = "link" then urls t
    else []
  | _ => []

mutual

/-- The references of a value. -/
def references : Value → List RawReference
  | .list items => referencesOfItems items
  | .object fields => fields.flatMap (fun f => fieldReferences f.1 f.2) ++ referencesOfFields fields
  | _ => []

def referencesOfItems : List Value → List RawReference
  | [] => []
  | v :: vs => references v ++ referencesOfItems vs

def referencesOfFields : List (Text × Value) → List RawReference
  | [] => []
  | (_, v) :: fs => references v ++ referencesOfFields fs

end

theorem textField_eq (name t : Text) : textField name t = fieldReferences name (.text t) := by
  unfold textField directField? fieldReferences mayHoldUrl
  split_ifs <;> simp_all

theorem ownReferences_eq (fields : List (Text × Value)) :
    ownReferences fields = fields.flatMap fun f => fieldReferences f.1 f.2 := by
  induction fields with
  | nil => rfl
  | cons f fields ih =>
    obtain ⟨name, v⟩ := f
    rw [List.flatMap_cons, ← ih]
    cases v with
    | text t => rw [ownReferences, textField_eq]
    | _ => rfl

theorem isContainer_of_nestedAt {v : Value} {n : Nat} (h : NestedAt n v) : isContainer v = true := by
  cases h <;> rfl

theorem references_leaf {v : Value} (h : ¬ NestedAt 0 v) : references v = [] := by
  cases v with
  | list items => exact absurd (.list items) h
  | object fields => exact absurd (.object fields) h
  | _ => rfl

/-- Values that hold nothing have no references, so it does not matter whether they are left out. -/
theorem referencesOfItems_eq (items : List Value) :
    referencesOfItems items = (items.filter isContainer).flatMap references := by
  induction items with
  | nil => rw [referencesOfItems]; rfl
  | cons v vs ih =>
    rw [referencesOfItems, ih]
    cases hv : isContainer v with
    | true => rw [List.filter_cons_of_pos hv, List.flatMap_cons]
    | false =>
      have hleaf : ¬ NestedAt 0 v := fun h => by
        rw [isContainer_of_nestedAt h] at hv
        cases hv
      rw [List.filter_cons_of_neg (by simp [hv]), references_leaf hleaf, List.nil_append]

theorem referencesOfFields_eq (fields : List (Text × Value)) :
    referencesOfFields fields = referencesOfItems (fields.map (·.2)) := by
  induction fields with
  | nil => rw [referencesOfFields, List.map_nil, referencesOfItems]
  | cons f fs ih => rw [referencesOfFields, ih, List.map_cons, referencesOfItems]

/-- One step of the walk: the references of the value itself, then those of what it encloses. -/
theorem references_eq (v : Value) : references v = referencesAt v ++ (containersIn v).flatMap references := by
  cases v with
  | list items => exact referencesOfItems_eq items
  | object fields =>
    rw [references, referencesOfFields_eq, referencesOfItems_eq, containersIn, referencesAt, ownReferences_eq]
  | _ => rfl

/-! ## The walk -/

/-- With enough steps, a walk through a stack that does not stop gives the references of each value on it in turn. -/
theorem walk_eq {limit : DepthLimit} : ∀ {n : Nat} {stack : List (Value × Nat)} {raws : List RawReference},
    steps (stack.map (·.1)) ≤ n → walk limit n stack = .ok raws → raws = stack.flatMap fun x => references x.1
  | 0, x :: stack, _, hn, _ => by
    rw [List.map_cons, steps, stepsOf_eq] at hn
    omega
  | 0, [], _, _, h | _ + 1, [], _, _, h => by
    cases h
    rfl
  | n + 1, (v, depth) :: stack, raws, hn, h => by
    rw [walk] at h
    split at h
    · cases h
    obtain ⟨rest, hrest, rfl⟩ := Outcome.map_ok.1 h
    -- what the step pushes gives the rest of the references of the value it took off
    rw [walk_eq (steps_pushed hn) hrest, List.flatMap_append, List.flatMap_map, List.flatMap_cons, references_eq v,
      List.append_assoc]

/-! ## Depths -/

theorem isContainer_of_mem {v c : Value} (h : c ∈ containersIn v) : isContainer v = true := by
  cases v with
  | list items | object fields => rfl
  | _ => cases h

theorem nestedAt_iff {v : Value} {n : Nat} : NestedAt n v ↔ isContainer v = true ∧ ∃ w, Inside v n w := by
  constructor
  · intro h
    refine ⟨isContainer_of_nestedAt h, ?_⟩
    induction h with
    | list items => exact ⟨_, .here _⟩
    | object fields => exact ⟨_, .here _⟩
    | item hv h ih =>
      obtain ⟨w, hw⟩ := ih
      exact ⟨w, .further (List.mem_filter.2 ⟨hv, isContainer_of_nestedAt h⟩) hw⟩
    | field hv h ih =>
      obtain ⟨w, hw⟩ := ih
      exact ⟨w, .further (List.mem_filter.2 ⟨List.mem_map_of_mem hv, isContainer_of_nestedAt h⟩) hw⟩
  · rintro ⟨hv, w, hw⟩
    induction hw with
    | here v =>
      cases v with
      | list items => exact .list items
      | object fields => exact .object fields
      | _ => cases hv
    | @further v c w n hc _ ih =>
      cases v with
      | list items =>
        obtain ⟨hmem, hcontainer⟩ := List.mem_filter.1 hc
        exact .item hmem (ih hcontainer)
      | object fields =>
        obtain ⟨hmem, hcontainer⟩ := List.mem_filter.1 hc
        obtain ⟨f, hf, rfl⟩ := List.mem_map.1 hmem
        exact .field hf (ih hcontainer)
      | _ => cases hc

/-- Some list or object of a document is deeper than a limit. A negative limit is too low even for the root. -/
def NestsBeyond (deepest : Int) (v : Value) : Prop := deepest < 0 ∨ ∃ n, NestedAt n v ∧ deepest < n

theorem fits_iff {deepest : Int} {v : Value} : Fits (.ofInt deepest) v ↔ ¬ NestsBeyond deepest v := by
  have hexceeded : ∀ n : Nat, (DepthLimit.ofInt deepest).exceeded n = false ↔ ¬ deepest < n := fun n => decide_eq_false_iff_not
  unfold Fits NestsBeyond
  constructor
  · rintro h (hnegative | ⟨n, hn, hdeep⟩)
    -- the root is checked even if it is no list or object
    · exact (hexceeded 0).1 (h 0 v (.here v)) hnegative
    · obtain ⟨-, w, hw⟩ := nestedAt_iff.1 hn
      exact (hexceeded n).1 (h n w hw) hdeep
  · intro h n w hw
    refine (hexceeded n).2 fun hdeep => h ?_
    cases hw with
    | here => exact .inl hdeep
    | further hc hw => exact .inr ⟨_, nestedAt_iff.2 ⟨isContainer_of_mem hc, w, .further hc hw⟩, hdeep⟩

/-! ## The document -/

theorem walk_fault {limit : DepthLimit} {fault : DocumentFault} : ∀ {n : Nat} {stack : List (Value × Nat)},
    walk limit n stack = .error fault → fault = .tooDeep limit
  | 0, _, h | _ + 1, [], h => by cases h
  | n + 1, (v, depth) :: stack, h => by
    rw [walk] at h
    split at h
    · cases h
      rfl
    · exact walk_fault (Outcome.map_error.1 h)

/-- A document is refused exactly if it nests beyond the limit, and all others give the references that the recursion
gives, in its order. -/
theorem document_refines (v : Value) (deepest : Int) :
    (document v (.ofInt deepest) = .error (.tooDeep (.ofInt deepest)) ↔ NestsBeyond deepest v) ∧
    (document v (.ofInt deepest) = .ok (references v) ↔ ¬ NestsBeyond deepest v) := by
  have hruns : (∃ raws, document v (.ofInt deepest) = .ok raws) ↔ ¬ NestsBeyond deepest v :=
    document_runs_iff.trans fits_iff
  cases hdocument : document v (.ofInt deepest) with
  | ok raws =>
    have hfits := hruns.1 ⟨raws, hdocument⟩
    have hraws : raws = references v := by
      rw [walk_eq (document_steps v) hdocument, List.flatMap_singleton]
    exact ⟨⟨nofun, fun h => absurd h hfits⟩, ⟨fun _ => hfits, fun _ => by rw [hraws]⟩⟩
  | error fault =>
    have hbeyond : NestsBeyond deepest v := by
      by_contra hfits
      obtain ⟨raws, hraws⟩ := hruns.2 hfits
      rw [hdocument] at hraws
      cases hraws
    have hfault : fault = .tooDeep (.ofInt deepest) := walk_fault hdocument
    exact ⟨⟨fun _ => hbeyond, fun _ => by rw [hfault]⟩, ⟨nofun, fun hfits => absurd hbeyond hfits⟩⟩

end ActionSweep.Extract
