/-
Loading a list of keys from a file, whatever its bytes are. What is not UTF-8 or not JSON, and what is neither a list nor
an object, gives an empty list. An object is asked for its ignored keys, and what it has under that name is walked over as
if it were a list: a number or a truth value cannot be walked over, and a text or an object gives keys that nobody put
there.
-/
import ActionSweep.Proofs.Extract.Document
import ActionSweep.Proofs.Ignore.Agreement
import ActionSweep.Proofs.Json.Reading
import ActionSweep.Proofs.Lists

namespace ActionSweep

/-- The text that a value is, if it is one. -/
def Value.text? : Value → Option Text
  | .text t => some t
  | _ => none

namespace IgnoreList

open Outcome (bind_ok mapError_ok)

variable {l l' : IgnoreList} {disk : Disk} {place : List Text} {bytes : Bytes} {v : Value} {fields : List (Text × Value)}

/-! ## Texts of a list -/

/-- The texts of a list, each at its first place. -/
def textsOf (values : List Value) : List Text := (values.filterMap Value.text?).eraseDups

theorem textsOf_concat (values : List Value) (t : Text) :
    textsOf (values ++ [.text t]) = if t ∈ textsOf values then textsOf values else textsOf values ++ [t] := by
  unfold textsOf
  rw [List.filterMap_append, List.filterMap_cons_some (show Value.text? (.text t) = some t from rfl), List.filterMap_nil,
    eraseDups_concat]
  simp only [List.mem_eraseDups]

theorem textsOf_concat_other (values : List Value) (hv : v.text? = none) : textsOf (values ++ [v]) = textsOf values := by
  unfold textsOf
  rw [List.filterMap_append, List.filterMap_cons_none hv, List.filterMap_nil, List.append_nil]

/-- The keys that a list gives are its texts. -/
theorem keysOf_eq_textsOf (values : List Value) : keysOf values = (textsOf values).map .text := by
  induction values using List.reverseRecOn with
  | nil => rfl
  | append_singleton values v ih =>
    rw [keysOf_eq] at ih ⊢
    rw [List.foldl_concat, ih]
    cases v with
    | text t =>
      rw [textsOf_concat]
      by_cases ht : t ∈ textsOf values
      · rw [if_pos ht, withKey, if_pos (by simpa [Value.same_text] using ht)]
      · rw [if_neg ht, withKey_new (by simpa using ht), List.map_append]
        rfl
    | null | bool _ | int _ | float _ | list _ | object _ | other _ _ _ _ =>
      rw [textsOf_concat_other values rfl]
      rfl

/-- A list that begins with a text gives a key. -/
theorem keysOf_ne_nil (t : Text) (values : List Value) : keysOf (.text t :: values) ≠ [] := by
  have hmem : t ∈ textsOf (.text t :: values) := by simp [textsOf, Value.text?]
  rw [keysOf_eq_textsOf]
  exact List.ne_nil_of_mem (List.mem_map_of_mem hmem)

/-! ## What is in the file -/

theorem document_eq (hfile : disk.resolve .target l.path.text = .ok (.found place (.file bytes)))
    (hdeep : ∀ t, Utf8.strict bytes = .ok t → ¬ Json.TooDeep disk.around.nesting t.unifyLines) :
    document l.path disk = .ok (Json.understood? disk.around.nesting Utf8.strict bytes) := by
  have hpresent : disk.present l.path.text = .ok true := Disk.present_ok.2 ⟨place, _, hfile⟩
  have hread : disk.read l.path.text = .ok bytes := Disk.read_ok.2 ⟨place, hfile⟩
  unfold document Json.understood?
  rw [hpresent, hread]
  cases hbytes : Utf8.strict bytes with
  | error f =>
    have hvalue : (Fault.encoding f).isValue = true := rfl
    simp [hbytes, hvalue, Except.mapError, Except.toOption, bind, Except.bind, pure, Except.pure]
  | ok t =>
    cases hjson : Json.readWithin disk.around.nesting t.unifyLines with
    | ok v => simp [hbytes, hjson, Except.mapError, Except.toOption, bind, Except.bind, pure, Except.pure]
    | error f =>
      have hvalue := Json.isValue_of_read hjson (hdeep t hbytes)
      simp [hbytes, hjson, hvalue, Except.mapError, Except.toOption, bind, Except.bind, pure, Except.pure]

/-! ## The keys of a document -/

/-- The list of keys in a document: the document, or what an object has under the name for ignored keys. -/
def listIn : Value → List Value
  | .list values => values
  | .object fields =>
    match Value.fieldD fields "ignored" with
    | .list values => values
    | _ => []
  | _ => []

theorem list_of_listIn {fields : List (Text × Value)} (h : listIn (.object fields) ≠ []) :
    ∃ values, Value.fieldD fields "ignored" = .list values := by
  simp only [listIn] at h
  split at h
  · exact ⟨_, ‹_›⟩
  · exact absurd rfl h

/-- The keys that some bytes should give, if brackets may nest so deep: the texts of the list in them, none if there is no list. -/
def keysFor (room : Nat) (bytes : Bytes) : List Value :=
  (textsOf (((Json.understood? room Utf8.strict bytes).map listIn).getD [])).map .text

/-- How an entry for ignored keys is read: it cannot be walked over, or it gives the keys that it should exactly if it is a
list or counts as false. -/
inductive ReadAs (fields : List (Text × Value)) (w : Value) : Prop
  | fails (hkeys : keysIn (.object fields) = .error (.notIterable w.kind)) (htrue : w.truthy = true) (hscalar : w.isScalar = true)
  | gives (keys : List Value) (hkeys : keysIn (.object fields) = .ok keys) (hscalar : w.truthy = true → w.isScalar = false)
      (hlist : keys = keysOf (listIn (.object fields)) ↔ (w.truthy = true → ∃ values, w = .list values))

theorem readAs (fields : List (Text × Value)) (hw : (Value.fieldD fields "ignored").InText) :
    ReadAs fields (Value.fieldD fields "ignored") := by
  have hkeys : keysIn (.object fields) = if (Value.fieldD fields "ignored").truthy then
      (Value.fieldD fields "ignored").items.map keysOf else .ok [] := rfl
  have hlist : listIn (.object fields) = match Value.fieldD fields "ignored" with
      | .list values => values
      | _ => [] := rfl
  generalize Value.fieldD fields "ignored" = w at hw hkeys hlist ⊢
  have hfalse (hw : w.truthy = false) (hl : listIn (.object fields) = []) : ReadAs fields w := by
    rw [if_neg (by rw [hw]; exact Bool.false_ne_true)] at hkeys
    refine .gives [] hkeys (fun h => ?_) ?_
    · rw [hw] at h
      cases h
    · rw [hl, hw]
      exact iff_of_true rfl nofun
  have hwalked (values : List Value) (t : Text) (hw : w.truthy = true) (hs : w.isScalar = false)
      (hitems : w.items = .ok (.text t :: values)) (hl : listIn (.object fields) = []) (hn : ∀ vs, w ≠ .list vs) :
      ReadAs fields w := by
    rw [if_pos hw, hitems] at hkeys
    refine .gives _ hkeys (fun _ => hs) ?_
    rw [hl]
    refine iff_of_false (keysOf_ne_nil t values) fun h => ?_
    obtain ⟨vs, hvs⟩ := h hw
    exact hn vs hvs
  cases w with
  | null => exact hfalse rfl hlist
  | bool b =>
    cases b with
    | false => exact hfalse rfl hlist
    | true => exact .fails hkeys rfl rfl
  | int n =>
    by_cases hn : n = 0
    · exact hfalse (by simp [Value.truthy, hn]) hlist
    · have htrue : (Value.int n).truthy = true := by simp [Value.truthy, hn]
      exact .fails (by rw [hkeys, if_pos htrue]; rfl) htrue rfl
  | float x =>
    cases hx : (x == 0) with
    | true => exact hfalse (by simp [Value.truthy, hx]) hlist
    | false =>
      have htrue : (Value.float x).truthy = true := by simp [Value.truthy, hx]
      exact .fails (by rw [hkeys, if_pos htrue]; rfl) htrue rfl
  | text t =>
    cases t with
    | nil => exact hfalse rfl hlist
    | cons c t => exact hwalked _ [c] rfl rfl rfl hlist (by rintro _ ⟨⟩)
  | list values =>
    cases values with
    | nil =>
      exact .gives [] hkeys (absurd · Bool.false_ne_true) (by rw [hlist]; exact iff_of_true rfl fun _ => ⟨[], rfl⟩)
    | cons v values => exact .gives _ hkeys (fun _ => rfl) (by rw [hlist]; exact iff_of_true rfl fun _ => ⟨v :: values, rfl⟩)
  | object inner =>
    cases inner with
    | nil => exact hfalse rfl hlist
    | cons f inner => exact hwalked _ f.1 rfl rfl rfl hlist (by rintro _ ⟨⟩)
  | other kind shown words items => exact hw.elim

/-! ## Loading -/

theorem load_none (h : document l.path disk = .ok none) : l.load disk = .ok ⟨l.path, []⟩ := by
  unfold load
  rw [h]
  rfl

theorem load_some (h : document l.path disk = .ok (some v)) :
    l.load disk = ((keysIn v).mapError Fault.misuse).map fun keys => ⟨l.path, keys⟩ := by
  unfold load
  rw [h]
  show ((keysIn v).mapError Fault.misuse >>= _) = _
  cases keysIn v with
  | error m => rfl
  | ok keys => rfl

theorem keysFor_of_understood {room : Nat} (h : Json.understood? room Utf8.strict bytes = some v) :
    keysFor room bytes = keysOf (listIn v) := by
  rw [keysFor, h, keysOf_eq_textsOf]
  rfl

/-- Loading a file fails only if it holds an object whose ignored keys are a number other than zero or the truth value true.
Otherwise the list has the texts that are in a list of the file, each at its first place, exactly if there is no object
whose ignored keys are something else than a list or what counts as false. -/
theorem load_exact (hfile : disk.resolve .target l.path.text = .ok (.found place (.file bytes)))
    (hdeep : ∀ t, Utf8.strict bytes = .ok t → ¬ Json.TooDeep disk.around.nesting t.unifyLines) :
    ((∃ l', l.load disk = .ok l') ↔ ∀ fields, Json.understood? disk.around.nesting Utf8.strict bytes = some (.object fields) →
      (Value.fieldD fields "ignored").truthy = true → (Value.fieldD fields "ignored").isScalar = false) ∧
    (l.load disk = .ok ⟨l.path, keysFor disk.around.nesting bytes⟩ ↔ ∀ fields, Json.understood? disk.around.nesting Utf8.strict bytes = some (.object fields) →
      (Value.fieldD fields "ignored").truthy = true → ∃ values, Value.fieldD fields "ignored" = .list values) ∧
    ∀ f, l.load disk = .error f → ∃ kind, f = .misuse (.notIterable kind) := by
  have hdocument := document_eq hfile hdeep
  by_cases hobject : ∃ fields, Json.understood? disk.around.nesting Utf8.strict bytes = some (.object fields)
  · obtain ⟨fields, hobject⟩ := hobject
    obtain ⟨t, -, hread⟩ := Json.understood?_eq_some hobject
    have hload := load_some (hobject ▸ hdocument)
    rw [keysFor_of_understood hobject, hload]
    simp only [hobject, Option.some.injEq, Value.object.injEq, forall_eq']
    rcases readAs fields (Json.inText_fieldD hread "ignored") with ⟨hkeys, htrue, hscalar⟩ | ⟨keys, hkeys, hscalar, hlist⟩
    · rw [hkeys]
      refine ⟨iff_of_false nofun fun h => ?_, iff_of_false nofun fun h => ?_, ?_⟩
      · rw [h htrue] at hscalar
        cases hscalar
      · obtain ⟨values, hvalues⟩ := h htrue
        rw [hvalues] at hscalar
        cases hscalar
      · rintro _ ⟨⟩
        exact ⟨_, rfl⟩
    · rw [hkeys]
      refine ⟨iff_of_true ⟨_, rfl⟩ hscalar, ?_, nofun⟩
      rw [← hlist]
      simp [Except.mapError, Except.map]
  · have hload : l.load disk = .ok ⟨l.path, keysFor disk.around.nesting bytes⟩ := by
      cases hdoc : Json.understood? disk.around.nesting Utf8.strict bytes with
      | none => rw [load_none (hdoc ▸ hdocument), keysFor, hdoc]; rfl
      | some v =>
        have hkeys : keysIn v = .ok (keysOf (listIn v)) := by
          cases v with
          | object fields => exact absurd ⟨fields, hdoc⟩ hobject
          | list values => rfl
          | _ => rfl
        rw [load_some (hdoc ▸ hdocument), keysFor_of_understood hdoc, hkeys]
        rfl
    refine ⟨iff_of_true ⟨_, hload⟩ fun fields h => absurd ⟨fields, h⟩ hobject,
      iff_of_true hload fun fields h => absurd ⟨fields, h⟩ hobject, fun f hf => ?_⟩
    rw [hload] at hf
    cases hf

end IgnoreList

namespace Sample

/-- A list of keys with one that is there twice, and a number among them. -/
def mixedKeys : Text := "\x7b\"ignored\": [\"b\", 3, \"a\", \"b\"]\x7d"

/-- A file for a list of keys, with a text. -/
def listDisk (content : Text) : Disk := ⟨file listPath content .empty, [], "/"⟩

end Sample

namespace IgnoreList

theorem sample_load_exact :
    (∀ t, Utf8.strict (Utf8.encode Sample.mixedKeys) = .ok t → ¬ Json.TooDeep Surroundings.standardNesting t.unifyLines) ∧
      (new (Path.ofText Sample.listPath)).load (Sample.listDisk Sample.mixedKeys) =
        .ok ⟨Path.ofText Sample.listPath, keysFor Surroundings.standardNesting (Utf8.encode Sample.mixedKeys)⟩ ∧
      (keysFor Surroundings.standardNesting (Utf8.encode Sample.mixedKeys)).map Value.text? = [some ['b'], some ['a']] := by
  have hstrict : Utf8.strict (Utf8.encode Sample.mixedKeys) = .ok Sample.mixedKeys := by decide +kernel
  obtain ⟨v, hread, -⟩ : ∃ v,
      Json.readWithin Surroundings.standardNesting Sample.mixedKeys.unifyLines = .ok v ∧ True := Outcome.ok_of_check (by decide +kernel)
  have hdeep : ∀ t, Utf8.strict (Utf8.encode Sample.mixedKeys) = .ok t → ¬ Json.TooDeep Surroundings.standardNesting t.unifyLines := by
    rintro t ht ⟨f, innermost, hf, -⟩
    obtain rfl : Sample.mixedKeys = t := Except.ok.inj (hstrict.symm.trans ht)
    rw [hread] at hf
    cases hf
  have hlist : ((Json.understood? (Sample.listDisk Sample.mixedKeys).around.nesting Utf8.strict
      (Utf8.encode Sample.mixedKeys)).map fun v => (listIn v).isEmpty) = some false := by decide +kernel
  have hfile : (Sample.listDisk Sample.mixedKeys).resolve .target (new (Path.ofText Sample.listPath)).path.text =
      .ok (.found [Sample.listPath] (.file (Utf8.encode Sample.mixedKeys))) := by decide +kernel
  have hload := (load_exact hfile hdeep).2.1
  refine ⟨hdeep, hload.2 fun fields hfields _ => list_of_listIn fun hnil => ?_, by decide +kernel⟩
  rw [hfields, Option.map_some, hnil] at hlist
  cases hlist

/-- A number in the place of the ignored keys is a fault that is neither one of a file nor one of a value. -/
theorem number_not_loaded :
    ∃ f, (new (Path.ofText Sample.listPath)).load (Sample.listDisk "\x7b\"ignored\": 5\x7d") = .error f ∧
      f.isFile = false ∧ f.isValue = false ∧ f.message = "'int' object is not iterable" :=
  Outcome.error_of_check (by decide +kernel)

end IgnoreList

end ActionSweep
