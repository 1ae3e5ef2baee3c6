/-
The order in which the references of a document are found. The text fields of an object come before the fields of
everything inside it, wherever they stand; otherwise the order is that of the document. So a text field that stands
behind a list or an object is found before the fields in there, which stand before it in the document.
-/
import ActionSweep.Proofs.Extract.Descent
import ActionSweep.Proofs.Lists

namespace ActionSweep.Extract

open Value (NestedAt)

/-! ## Text fields and their positions -/

/-- A text field inside a document: which elements and fields lead to it, counted from zero, and then its own number. -/
structure TextField where
  position : List Nat
  name : Text
  value : Text

namespace TextField

def references (f : TextField) : List RawReference := fieldReferences f.name (.text f.value)

/-- The field of a value, seen from a list or object that has the value at a number. -/
def below (i : Nat) (f : TextField) : TextField := { f with position := i :: f.position }

end TextField

/-- An object inside a value has a text field at a position. -/
inductive HasField : Value → List Nat → Text → Text → Prop
  | own {fields : List (Text × Value)} {i : Nat} {name t : Text} (h : fields[i]? = some (name, .text t)) :
      HasField (.object fields) [i] name t
  | item {items : List Value} {i : Nat} {v : Value} {position : List Nat} {name t : Text} (hv : items[i]? = some v)
      (h : HasField v position name t) : HasField (.list items) (i :: position) name t
  | field {fields : List (Text × Value)} {i : Nat} {label : Text} {v : Value} {position : List Nat} {name t : Text}
      (hv : fields[i]? = some (label, v)) (h : HasField v position name t) : HasField (.object fields) (i :: position) name t

/-- A field of an object if it is a text field. -/
def ownField (i : Nat) : Text × Value → List TextField
  | (name, .text t) => [⟨[i], name, t⟩]
  | _ => []

/-- The text fields of an object itself; its first field has the number `i`. -/
def ownFields (i : Nat) : List (Text × Value) → List TextField
  | [] => []
  | f :: fields => ownField i f ++ ownFields (i + 1) fields

mutual

/-- The text fields inside a value, those of an object itself before all that lie deeper in it. -/
def textFields : Value → List TextField
  | .list items => textFieldsOfItems 0 items
  | .object fields => ownFields 0 fields ++ textFieldsOfFields 0 fields
  | _ => []

def textFieldsOfItems (i : Nat) : List Value → List TextField
  | [] => []
  | v :: vs => (textFields v).map (·.below i) ++ textFieldsOfItems (i + 1) vs

def textFieldsOfFields (i : Nat) : List (Text × Value) → List TextField
  | [] => []
  | (_, v) :: fs => (textFields v).map (·.below i) ++ textFieldsOfFields (i + 1) fs

end

theorem textFields_leaf {v : Value} (h : ¬ NestedAt 0 v) : textFields v = [] := by
  cases v with
  | list items => exact absurd (.list items) h
  | object fields => exact absurd (.object fields) h
  | _ => rfl

theorem textFieldsOfFields_eq (i : Nat) (fields : List (Text × Value)) :
    textFieldsOfFields i fields = textFieldsOfItems i (fields.map (·.2)) := by
  induction fields generalizing i with
  | nil => rfl
  | cons f fs ih => rw [textFieldsOfFields, ih, List.map_cons, textFieldsOfItems]

theorem mem_ownField {f : TextField} {i : Nat} {field : Text × Value} :
    f ∈ ownField i field ↔ field = (f.name, .text f.value) ∧ f.position = [i] := by
  obtain ⟨position, name, value⟩ := f
  obtain ⟨name', v⟩ := field
  cases v with
  | text t =>
    simp [ownField]
    tauto
  | _ => simp [ownField]

theorem ownFields_references (i : Nat) (fields : List (Text × Value)) :
    (ownFields i fields).flatMap TextField.references = fields.flatMap fun f => fieldReferences f.1 f.2 := by
  induction fields generalizing i with
  | nil => rfl
  | cons f fields ih =>
    rw [ownFields, List.flatMap_append, ih, List.flatMap_cons]
    obtain ⟨name, v⟩ := f
    cases v with
    | text t => rw [ownField, List.flatMap_singleton, TextField.references]
    | _ => rfl

theorem references_below (i : Nat) (fs : List TextField) :
    (fs.map (·.below i)).flatMap TextField.references = fs.flatMap TextField.references := by
  rw [List.flatMap_map]
  rfl

theorem textFieldsOfItems_references {items : List Value}
    (h : ∀ v ∈ items, (textFields v).flatMap TextField.references = references v) (i : Nat) :
    (textFieldsOfItems i items).flatMap TextField.references = referencesOfItems items := by
  induction items generalizing i with
  | nil => rfl
  | cons v vs ih =>
    obtain ⟨hv, hvs⟩ := List.forall_mem_cons.1 h
    rw [textFieldsOfItems, List.flatMap_append, references_below, hv, ih hvs, referencesOfItems]

/-- The references of a value are those of its text fields. -/
theorem textFields_references (v : Value) : (textFields v).flatMap TextField.references = references v := by
  induction v using Value.induction_mem with
  | list items ih => exact textFieldsOfItems_references ih 0
  | object fields ih =>
    rw [textFields, references, List.flatMap_append, ownFields_references, textFieldsOfFields_eq, referencesOfFields_eq,
      textFieldsOfItems_references (List.forall_mem_map.2 ih)]
  | leaf v hleaf => rw [textFields_leaf hleaf, references_leaf hleaf, List.flatMap_nil]

/-! ## Which text fields there are -/

theorem mem_ownFields {f : TextField} {fields : List (Text × Value)} {i : Nat} :
    f ∈ ownFields i fields ↔ ∃ j, fields[j]? = some (f.name, .text f.value) ∧ f.position = [i + j] := by
  induction fields generalizing i with
  | nil => simp [ownFields]
  | cons field fields ih =>
    rw [ownFields, List.mem_append, ih, mem_ownField]
    constructor
    · rintro (⟨rfl, hposition⟩ | ⟨j, hj, hposition⟩)
      · exact ⟨0, rfl, hposition⟩
      · exact ⟨j + 1, hj, by rw [hposition, Nat.add_assoc, Nat.add_comm 1]⟩
    · rintro ⟨_ | j, hj, hposition⟩
      · exact .inl ⟨Option.some.inj hj, hposition⟩
      · exact .inr ⟨j, hj, by rw [hposition, Nat.add_assoc, Nat.add_comm 1]⟩

theorem mem_textFieldsOfItems {f : TextField} {items : List Value} {i : Nat} :
    f ∈ textFieldsOfItems i items ↔ ∃ j v, items[j]? = some v ∧ ∃ g ∈ textFields v, f = g.below (i + j) := by
  induction items generalizing i with
  | nil => simp [textFieldsOfItems]
  | cons v vs ih =>
    rw [textFieldsOfItems, List.mem_append, ih, List.mem_map]
    constructor
    · rintro (⟨g, hg, rfl⟩ | ⟨j, w, hw, g, hg, rfl⟩)
      · exact ⟨0, v, rfl, g, hg, rfl⟩
      · exact ⟨j + 1, w, hw, g, hg, by rw [Nat.add_assoc, Nat.add_comm 1]⟩
    · rintro ⟨_ | j, w, hw, g, hg, rfl⟩
      · cases hw
        exact .inl ⟨g, hg, rfl⟩
      · exact .inr ⟨j, w, hw, g, hg, by rw [Nat.add_assoc, Nat.add_comm 1]⟩

theorem mem_textFields_below {items : List Value} {f : TextField} : f ∈ textFieldsOfItems 0 items ↔
    ∃ i v, items[i]? = some v ∧ ∃ g ∈ textFields v, f = g.below i := by
  simp only [mem_textFieldsOfItems, Nat.zero_add]

theorem hasField_of_mem {v : Value} : ∀ {f : TextField}, f ∈ textFields v → HasField v f.position f.name f.value := by
  induction v using Value.induction_mem with
  | list items ih =>
    intro f h
    obtain ⟨i, v, hv, g, hg, rfl⟩ := mem_textFields_below.1 h
    exact .item hv (ih v (List.mem_of_getElem? hv) hg)
  | object fields ih =>
    intro f h
    rw [textFields, textFieldsOfFields_eq, List.mem_append, mem_ownFields, mem_textFields_below] at h
    rcases h with ⟨i, hi, hposition⟩ | ⟨i, v, hv, g, hg, rfl⟩
    · rw [hposition, Nat.zero_add]
      exact .own hi
    · rw [List.getElem?_map, Option.map_eq_some_iff] at hv
      obtain ⟨field, hfield, rfl⟩ := hv
      exact .field hfield (ih field (List.mem_of_getElem? hfield) hg)
  | leaf v hleaf =>
    intro f h
    rw [textFields_leaf hleaf] at h
    cases h

theorem HasField.mem {v : Value} {position : List Nat} {name t : Text} (h : HasField v position name t) :
    ⟨position, name, t⟩ ∈ textFields v := by
  induction h with
  | own h => exact List.mem_append_left _ (mem_ownFields.2 ⟨_, h, by rw [Nat.zero_add]⟩)
  | item hv h ih => exact mem_textFields_below.2 ⟨_, _, hv, _, ih, rfl⟩
  | field hv h ih =>
    refine List.mem_append_right _ ?_
    rw [textFieldsOfFields_eq]
    exact mem_textFields_below.2 ⟨_, _, by rw [List.getElem?_map, hv, Option.map_some], _, ih, rfl⟩

theorem mem_textFields {v : Value} {f : TextField} : f ∈ textFields v ↔ HasField v f.position f.name f.value :=
  ⟨hasField_of_mem, HasField.mem⟩

/-! ## The order of the walk -/

/-- The field at the first position belongs to an object in which the one at the second position lies deeper. -/
def Overtakes (p q : List Nat) : Prop := p.dropLast <+: q ∧ p.length < q.length

/-- The order of the walk: a field comes before those that it overtakes, and otherwise the document has the order. -/
def WalkedBefore (p q : List Nat) : Prop := Overtakes p q ∨ p < q ∧ ¬ Overtakes q p

instance (p q : List Nat) : Decidable (Overtakes p q) := inferInstanceAs (Decidable (_ ∧ _))

theorem overtakes_cons {i j : Nat} {p q : List Nat} (hp : p ≠ []) : Overtakes (i :: p) (j :: q) ↔ i = j ∧ Overtakes p q := by
  unfold Overtakes
  rw [List.dropLast_cons_of_ne_nil hp, List.cons_prefix_cons, List.length_cons, List.length_cons, Nat.add_lt_add_iff_right,
    and_assoc]

theorem WalkedBefore.cons {p q : List Nat} (i : Nat) (hp : p ≠ []) (hq : q ≠ []) (h : WalkedBefore p q) :
    WalkedBefore (i :: p) (i :: q) := by
  unfold WalkedBefore at h ⊢
  rw [overtakes_cons hp, overtakes_cons hq, List.cons_lt_cons_iff]
  rcases h with h | ⟨hlt, hnot⟩
  · exact .inl ⟨rfl, h⟩
  · exact .inr ⟨.inr ⟨rfl, hlt⟩, fun h => hnot h.2⟩

/-- At the first number in which two positions differ, the smaller one comes first, unless only the larger one ends there. -/
theorem walkedBefore_of_lt {i j : Nat} {p q : List Nat} (hij : i < j) (hend : q = [] → p = []) :
    WalkedBefore (i :: p) (j :: q) := by
  refine .inr ⟨List.cons_lt_cons_iff.2 (.inl hij), ?_⟩
  by_cases hq : q = []
  · rw [hq, hend hq]
    exact fun h => Nat.lt_irrefl _ h.2
  · rw [overtakes_cons hq]
    exact fun h => absurd h.1 (Nat.ne_of_gt hij)

theorem walkedBefore_own {i j : Nat} {q : List Nat} (hq : q ≠ []) : WalkedBefore [i] (j :: q) :=
  .inl ⟨List.nil_prefix, by simpa using List.length_pos_iff.2 hq⟩

theorem position_ne_nil {v : Value} {f : TextField} (h : f ∈ textFields v) : f.position ≠ [] := by
  have hfield := hasField_of_mem h
  intro hnil
  rw [hnil] at hfield
  cases hfield

theorem ownFields_pairwise (fields : List (Text × Value)) (i : Nat) :
    (ownFields i fields).Pairwise fun f g => WalkedBefore f.position g.position := by
  induction fields generalizing i with
  | nil => exact .nil
  | cons field fields ih =>
    refine List.pairwise_append.2 ⟨?_, ih (i + 1), fun f hf g hg => ?_⟩
    · obtain ⟨name, v⟩ := field
      cases v with
      | text t => exact List.pairwise_singleton ..
      | _ => exact .nil
    · obtain ⟨-, hf⟩ := mem_ownField.1 hf
      obtain ⟨j, -, hg⟩ := mem_ownFields.1 hg
      rw [hf, hg]
      exact walkedBefore_of_lt (by omega) fun _ => rfl

theorem textFieldsOfItems_pairwise {items : List Value}
    (h : ∀ v ∈ items, (textFields v).Pairwise fun f g => WalkedBefore f.position g.position) (i : Nat) :
    (textFieldsOfItems i items).Pairwise fun f g => WalkedBefore f.position g.position := by
  induction items generalizing i with
  | nil => exact .nil
  | cons v vs ih =>
    obtain ⟨hv, hvs⟩ := List.forall_mem_cons.1 h
    refine List.pairwise_append.2 ⟨?_, ih hvs (i + 1), fun f hf g hg => ?_⟩
    · refine List.pairwise_map.2 (hv.imp_of_mem fun hf hg hfg => ?_)
      exact hfg.cons i (position_ne_nil hf) (position_ne_nil hg)
    · obtain ⟨f, hf, rfl⟩ := List.mem_map.1 hf
      obtain ⟨j, w, -, g', hg', rfl⟩ := mem_textFieldsOfItems.1 hg
      exact walkedBefore_of_lt (by omega) fun hnil => absurd hnil (position_ne_nil hg')

theorem textFields_pairwise (v : Value) : (textFields v).Pairwise fun f g => WalkedBefore f.position g.position := by
  induction v using Value.induction_mem with
  | list items ih => exact textFieldsOfItems_pairwise ih 0
  | object fields ih =>
    rw [textFields, textFieldsOfFields_eq]
    -- an own field overtakes whatever lies deeper, on either side of it
    refine List.pairwise_append.2 ⟨ownFields_pairwise fields 0, textFieldsOfItems_pairwise (List.forall_mem_map.2 ih) 0, ?_⟩
    intro f hf g hg
    obtain ⟨i, -, hposition⟩ := mem_ownFields.1 hf
    obtain ⟨j, w, -, g', hg', rfl⟩ := mem_textFields_below.1 hg
    rw [hposition]
    exact walkedBefore_own (position_ne_nil hg')
  | leaf v hleaf =>
    rw [textFields_leaf hleaf]
    exact .nil

/-! ## The references of a document -/

/-- References come from the text fields of a document that have any, field by field in a given order of positions. -/
def ListedBy (before : List Nat → List Nat → Prop) (v : Value) (raws : List RawReference) : Prop :=
  ∃ fields : List TextField, raws = fields.flatMap TextField.references ∧
    (∀ f, f ∈ fields ↔ HasField v f.position f.name f.value ∧ f.references ≠ []) ∧
    fields.Pairwise fun f g => before f.position g.position

theorem listedBy_walk (v : Value) : ListedBy WalkedBefore v (references v) := by
  refine ⟨(textFields v).filter (decide <| ·.references ≠ []), ?_, fun f => ?_, (textFields_pairwise v).filter _⟩
  · rw [← textFields_references v]
    exact (flatMap_filter (fun _ _ _ => rfl) fun f _ hf => by simpa using hf).symm
  · rw [List.mem_filter, mem_textFields, decide_eq_true_iff]

/-- The order may be stated in another way for the positions that occur. -/
theorem ListedBy.imp {before before' : List Nat → List Nat → Prop} {v : Value} {raws : List RawReference}
    (h : ListedBy before v raws)
    (himp : ∀ f g : TextField, HasField v f.position f.name f.value → f.references ≠ [] →
      HasField v g.position g.name g.value → g.references ≠ [] → before f.position g.position → before' f.position g.position) :
    ListedBy before' v raws := by
  obtain ⟨fields, hraws, hmem, hpairwise⟩ := h
  refine ⟨fields, hraws, hmem, hpairwise.imp_of_mem fun {f g} hf hg hbefore => ?_⟩
  obtain ⟨hf, hfne⟩ := (hmem f).1 hf
  obtain ⟨hg, hgne⟩ := (hmem g).1 hg
  exact himp f g hf hfne hg hgne hbefore

/-- The references of a field come before those of another one that may not come first. -/
theorem ListedBy.sublist {before : List Nat → List Nat → Prop} {v : Value} {raws : List RawReference}
    (h : ListedBy before v raws) {f g : TextField} (hf : HasField v f.position f.name f.value) (hfne : f.references ≠ [])
    (hg : HasField v g.position g.name g.value) (hgne : g.references ≠ []) (hdiff : f ≠ g)
    (hnot : ¬ before g.position f.position) : (f.references ++ g.references).Sublist raws := by
  obtain ⟨fields, rfl, hmem, hpairwise⟩ := h
  obtain ⟨front, back, rfl⟩ := List.append_of_mem ((hmem f).2 ⟨hf, hfne⟩)
  -- in front of `f` the other field would come first
  have hback : g ∈ back := by
    rcases List.mem_append.1 ((hmem g).2 ⟨hg, hgne⟩) with hfront | hrest
    · exact absurd ((List.pairwise_append.1 hpairwise).2.2 g hfront f (List.mem_cons_self ..)) hnot
    · exact (List.mem_cons.1 hrest).resolve_left hdiff.symm
  rw [List.flatMap_append, List.flatMap_cons]
  refine List.Sublist.trans ?_ (List.sublist_append_right ..)
  refine (List.Sublist.refl _).append ?_
  rw [List.flatMap_def]
  exact List.sublist_flatten_of_mem (List.mem_map_of_mem hback)

variable {v : Value} {raws : List RawReference} {limit : DepthLimit}

/-- The references of a document come field by field in the order of the walk. They come in the order of the document
if no text field with references stands behind something in the same object that has some deeper inside. -/
theorem document_in_walk_order (h : document v limit = .ok raws) :
    ListedBy WalkedBefore v raws ∧
    ((∀ f g : TextField, HasField v f.position f.name f.value → f.references ≠ [] →
      HasField v g.position g.name g.value → g.references ≠ [] → Overtakes g.position f.position →
      g.position < f.position) → ListedBy (· < ·) v raws) := by
  have hraws : raws = references v := by
    rw [walk_eq (document_steps v) h, List.flatMap_singleton]
  subst hraws
  refine ⟨listedBy_walk v, fun hclear => (listedBy_walk v).imp fun f g hf hfne hg hgne hbefore => ?_⟩
  -- the two orders differ only where one field overtakes another
  rcases hbefore with hovertakes | ⟨hlt, -⟩
  · exact hclear g f hg hgne hf hfne hovertakes
  · exact hlt

/-- An object with a reference of its own in front of an object with another one. -/
def earlyField : Value := .object [("exec", .text "y"), ("a", .object [("exec", .text "x")])]

theorem sample_document_in_walk_order :
    document earlyField .standard = .ok [⟨"y", .execField⟩, ⟨"x", .execField⟩] ∧
    ListedBy WalkedBefore earlyField [⟨"y", .execField⟩, ⟨"x", .execField⟩] ∧
    ListedBy (· < ·) earlyField [⟨"y", .execField⟩, ⟨"x", .execField⟩] := by
  have hdocument : document earlyField .standard = .ok [⟨"y", .execField⟩, ⟨"x", .execField⟩] := by decide
  have hfields : textFields earlyField = [⟨[0], "exec", "y"⟩, ⟨[1, 0], "exec", "x"⟩] := rfl
  obtain ⟨hwalk, horder⟩ := document_in_walk_order hdocument
  refine ⟨hdocument, hwalk, horder fun f g hf _ hg _ => ?_⟩
  rw [← mem_textFields, hfields] at hf hg
  simp only [List.mem_cons, List.not_mem_nil, or_false] at hf hg
  rcases hf with rfl | rfl <;> rcases hg with rfl | rfl <;> decide

/-- An object with a reference of its own behind an object with another one. -/
def lateField : Value := .object [("a", .object [("exec", .text "x")]), ("exec", .text "y")]

/-- The reference behind the object is found first, so the order is not that of the document. -/
theorem late_field_overtakes :
    HasField lateField [0, 0] "exec" "x" ∧ HasField lateField [1] "exec" "y" ∧ ([0, 0] : List Nat) < [1] ∧
    document lateField .standard = .ok [⟨"y", .execField⟩, ⟨"x", .execField⟩] ∧
    ¬ ListedBy (· < ·) lateField [⟨"y", .execField⟩, ⟨"x", .execField⟩] := by
  have hfirst : HasField lateField [0, 0] "exec" "x" := .field rfl (.own rfl)
  have hsecond : HasField lateField [1] "exec" "y" := .own rfl
  refine ⟨hfirst, hsecond, by decide, by decide, fun hlisted => ?_⟩
  have hsublist := hlisted.sublist (f := ⟨[0, 0], "exec", "x"⟩) (g := ⟨[1], "exec", "y"⟩) hfirst (by decide) hsecond
    (by decide) nofun (by decide)
  revert hsublist
  decide

end ActionSweep.Extract
