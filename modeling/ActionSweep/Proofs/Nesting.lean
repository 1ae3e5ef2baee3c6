/-
How deep lists and objects nest inside a value: a value that is one is at depth zero, and every list or object
around another one makes its depth greater by one.
-/
import ActionSweep.Value.Basic

namespace ActionSweep.Value

/-- There is a list or object inside a value with so many lists and objects around it. -/
inductive NestedAt : Nat → Value → Prop
  | list (items : List Value) : NestedAt 0 (.list items)
  | object (fields : List (Text × Value)) : NestedAt 0 (.object fields)
  | item {n : Nat} {v : Value} {items : List Value} (hv : v ∈ items) (h : NestedAt n v) : NestedAt (n + 1) (.list items)
  | field {n : Nat} {v : Value} {name : Text} {fields : List (Text × Value)} (hv : (name, v) ∈ fields) (h : NestedAt n v) :
      NestedAt (n + 1) (.object fields)

/-- A list is nested less deep than a bound if it has room for itself and for everything in it. -/
theorem nested_list_lt {k : Nat} {items : List Value} :
    (∀ n, NestedAt n (.list items) → n < k) ↔ 0 < k ∧ ∀ v ∈ items, ∀ n, NestedAt n v → n < k - 1 := by
  constructor
  · intro h
    refine ⟨h 0 (.list items), fun v hv n hn => ?_⟩
    have hdeeper := h (n + 1) (.item hv hn)
    omega
  · rintro ⟨hk, h⟩ _ (_ | _ | ⟨hv, hn⟩)
    · exact hk
    · have hinside := h _ hv _ hn
      omega

theorem nested_object_lt {k : Nat} {fields : List (Text × Value)} :
    (∀ n, NestedAt n (.object fields) → n < k) ↔ 0 < k ∧ ∀ f ∈ fields, ∀ n, NestedAt n f.2 → n < k - 1 := by
  constructor
  · intro h
    refine ⟨h 0 (.object fields), fun f hf n hn => ?_⟩
    have hdeeper := h (n + 1) (.field hf hn)
    omega
  · rintro ⟨hk, h⟩ _ (_ | _ | _ | ⟨hv, hn⟩)
    · exact hk
    · have hinside := h _ hv _ hn
      omega

/-- Induction over values: what holds of a list or object if it holds of everything in it, and of all other values,
holds of every value. -/
@[elab_as_elim]
theorem induction_mem {P : Value → Prop} (list : ∀ items, (∀ v ∈ items, P v) → P (.list items))
    (object : ∀ fields : List (Text × Value), (∀ f ∈ fields, P f.2) → P (.object fields))
    (leaf : ∀ v, ¬ NestedAt 0 v → P v) : ∀ v, P v
  | .list items => list items fun v _ => induction_mem list object leaf v
  | .object fields => object fields fun f _ => induction_mem list object leaf f.2
  | .null => leaf _ nofun
  | .bool _ => leaf _ nofun
  | .int _ => leaf _ nofun
  | .float _ => leaf _ nofun
  | .text _ => leaf _ nofun
  | .other _ _ _ _ => leaf _ nofun
termination_by v => sizeOf v
decreasing_by
  · have := List.sizeOf_lt_of_mem ‹_ ∈ items›
    simp
    omega
  · have := List.sizeOf_lt_of_mem ‹f ∈ fields›
    obtain ⟨name, v⟩ := f
    simp at this ⊢
    omega

end ActionSweep.Value
