/-
An index as a function of the calls that were made on it, declarations and records in any order. Every key that was
declared has one action, in the order of the first declarations: it is what the last declaration of the key says, with
the references that were recorded under the key behind that declaration. What is on file for a key is everything that
was ever recorded under it, whether and whenever the key was declared.
-/
import ActionSweep.Proofs.Index.Recorded

namespace ActionSweep.Index

open Finding (naming)

/-! ## Calls -/

/-- A call on an index. -/
inductive Call
  | declare (key file : Text) (content : Value)
  | record (found : Finding)

namespace Call

/-- What a call makes of an index. -/
def on (i : Index) : Call → Index
  | declare key file content => i.declare key file content
  | record found => i.record found.file found.raw

/-- The key that a call declares. -/
def declares? : Call → Option Text
  | declare key _ _ => some key
  | record _ => none

/-- The finding that a call records. -/
def records? : Call → Option Finding
  | declare _ _ _ => none
  | record found => some found

end Call

/-- The index after some calls. -/
def ofCalls (calls : List Call) : Index := calls.foldl Call.on .empty

/-- The keys that some calls declare, in the order of the first declarations. -/
def declaredKeys (calls : List Call) : List Text := (calls.filterMap Call.declares?).eraseDups

/-- What some calls record, in their order. -/
def recordsIn (calls : List Call) : List Finding := calls.filterMap Call.records?

/-- The action of a key: what the last declaration of the key says, with what is recorded under it from then on. -/
inductive LastDeclared (key : Text) : List Call → Action → Prop
  | mk (before later : List Call) (file : Text) (content : Value) (hlast : ∀ call ∈ later, call.declares? ≠ some key) :
      LastDeclared key (before ++ .declare key file content :: later) ⟨key, file, content, naming (recordsIn later) key⟩

theorem ofCalls_concat (calls : List Call) (call : Call) : ofCalls (calls ++ [call]) = call.on (ofCalls calls) :=
  List.foldl_concat ..

theorem declaredKeys_declare (calls : List Call) (key file : Text) (content : Value) :
    declaredKeys (calls ++ [.declare key file content]) =
      if key ∈ declaredKeys calls then declaredKeys calls else declaredKeys calls ++ [key] := by
  have hkey : (Call.declare key file content).declares? = some key := rfl
  unfold declaredKeys
  rw [List.filterMap_append, List.filterMap_cons_some hkey, List.filterMap_nil, eraseDups_concat]
  simp only [List.mem_eraseDups]

theorem declaredKeys_record (calls : List Call) (found : Finding) :
    declaredKeys (calls ++ [.record found]) = declaredKeys calls := by
  unfold declaredKeys
  rw [List.filterMap_append, List.filterMap_cons_none rfl, List.filterMap_nil, List.append_nil]

theorem recordsIn_declare (calls : List Call) (key file : Text) (content : Value) :
    recordsIn (calls ++ [.declare key file content]) = recordsIn calls := by
  unfold recordsIn
  rw [List.filterMap_append, List.filterMap_cons_none rfl, List.filterMap_nil, List.append_nil]

theorem recordsIn_record (calls : List Call) (found : Finding) :
    recordsIn (calls ++ [.record found]) = recordsIn calls ++ [found] := by
  have hfound : (Call.record found).records? = some found := rfl
  unfold recordsIn
  rw [List.filterMap_append, List.filterMap_cons_some hfound, List.filterMap_nil]

/-! ## Actions -/

namespace LastDeclared

variable {key : Text} {calls : List Call} {a : Action}

theorem key_eq (h : LastDeclared key calls a) : a.key = key := by
  cases h
  rfl

/-- What was declared last has no references. -/
theorem declared (calls : List Call) (key file : Text) (content : Value) :
    LastDeclared key (calls ++ [.declare key file content]) ⟨key, file, content, []⟩ :=
  .mk calls [] file content (by simp)

/-- A declaration of another key leaves the action as it is. -/
theorem declare (h : LastDeclared key calls a) {other : Text} (hne : other ≠ key) (file : Text) (content : Value) :
    LastDeclared key (calls ++ [.declare other file content]) a := by
  obtain ⟨before, later, f, c, hlast⟩ := h
  rw [List.append_assoc, List.cons_append, ← recordsIn_declare later other file content]
  refine .mk before _ f c fun call hcall => ?_
  rcases List.mem_append.1 hcall with hcall | hcall
  · exact hlast call hcall
  · rw [List.mem_singleton.1 hcall]
    exact fun he => hne (Option.some.inj he)

/-- A record under the key of the action is one of its references from then on. -/
theorem record (h : LastDeclared key calls a) (found : Finding) :
    LastDeclared key (calls ++ [.record found]) (attached (naming [found]) a) := by
  obtain ⟨before, later, f, c, hlast⟩ := h
  have hrefs : attached (naming [found]) ⟨key, f, c, naming (recordsIn later) key⟩ =
      ⟨key, f, c, naming (recordsIn (later ++ [.record found])) key⟩ := by
    rw [recordsIn_record, Finding.naming_append]
    rfl
  rw [hrefs, List.append_assoc, List.cons_append]
  refine .mk before _ f c fun call hcall => ?_
  rcases List.mem_append.1 hcall with hcall | hcall
  · exact hlast call hcall
  · rw [List.mem_singleton.1 hcall]
    rintro ⟨⟩

end LastDeclared

/-- A declaration is put at the place of its key, or behind all others; what stands there for other keys stays. -/
theorem forall₂_putAction {R S : Text → Action → Prop} (new : Action) (hkey : ∀ k a, R k a → a.key = k)
    (hstays : ∀ k a, R k a → new.key ≠ k → S k a) (hnew : S new.key new) {keys : List Text} {actions : List Action}
    (h : List.Forall₂ R keys actions) (hnodup : keys.Nodup) :
    List.Forall₂ S (if new.key ∈ keys then keys else keys ++ [new.key]) (putAction new actions) := by
  induction h with
  | nil => simpa [putAction] using hnew
  | @cons k a keys actions hka h ih =>
    obtain ⟨hk, hnodup⟩ := List.nodup_cons.1 hnodup
    have ih := ih hnodup
    unfold putAction
    rw [hkey k a hka]
    by_cases he : k = new.key
    · -- the other keys differ from this one, so their actions stay
      have hothers : ∀ k' ∈ keys, new.key ≠ k' := fun k' hk' he' => hk (he ▸ he' ▸ hk')
      subst he
      rw [if_pos rfl, if_pos (List.mem_cons_self ..)]
      exact .cons hnew (((List.forall₂_and_left keys actions).2 ⟨hothers, h⟩).imp fun k a hka => hstays k a hka.2 hka.1)
    · rw [if_neg he]
      have hmem : new.key ∈ k :: keys ↔ new.key ∈ keys := by simp [Ne.symm he]
      have hcons := List.Forall₂.cons (hstays k a hka (Ne.symm he)) ih
      simp only [hmem]
      split
      · rwa [if_pos ‹_›] at hcons
      · rwa [if_neg ‹_›] at hcons

theorem nodup_declaredKeys (calls : List Call) : (declaredKeys calls).Nodup := nodup_eraseDups _

/-- After some calls every declared key has its action, in the order of the first declarations. -/
theorem ofCalls_actions (calls : List Call) :
    List.Forall₂ (LastDeclared · calls) (declaredKeys calls) (ofCalls calls).actions := by
  induction calls using List.reverseRecOn with
  | nil => exact .nil
  | append_singleton calls call ih =>
    rw [ofCalls_concat]
    cases call with
    | declare key file content =>
      rw [declaredKeys_declare]
      exact forall₂_putAction ⟨key, file, content, []⟩ (fun k a h => h.key_eq)
        (fun k a h hne => h.declare hne file content) (.declared calls key file content) ih (nodup_declaredKeys calls)
    | record found =>
      rw [declaredKeys_record]
      show List.Forall₂ _ _ ((ofCalls calls).record found.file found.raw).actions
      rw [record_actions, List.forall₂_map_right_iff]
      exact ih.imp fun k a h => h.record found

theorem ofCalls_keys (calls : List Call) : (ofCalls calls).actions.map (·.key) = declaredKeys calls := by
  rw [← List.forall₂_eq_eq_eq, List.forall₂_map_left_iff]
  exact (ofCalls_actions calls).flip.imp fun a k h => h.key_eq

/-! ## References on file -/

/-- What is on file after a record does not depend on what is declared. -/
theorem record_recorded {i j : Index} (h : i.recorded = j.recorded) (source : Text) (raw : RawReference) :
    (i.record source raw).recorded = (j.record source raw).recorded := by
  unfold record
  split
  · exact h
  · simp only [h]

/-- Declarations put nothing on file. -/
theorem ofCalls_recorded (calls : List Call) :
    (ofCalls calls).recorded = (Index.empty.recordAll (recordsIn calls)).recorded := by
  induction calls using List.reverseRecOn with
  | nil => rfl
  | append_singleton calls call ih =>
    rw [ofCalls_concat]
    cases call with
    | declare key file content =>
      rw [recordsIn_declare]
      exact ih
    | record found =>
      rw [recordsIn_record, recordAll_append]
      exact record_recorded ih found.file found.raw

/-- What is on file under a key is what was recorded under it. -/
theorem recordAll_referencesFor (found : List Finding) (key : Text) :
    (Index.empty.recordAll found).referencesFor key = naming found key := by
  unfold referencesFor
  rw [recordAll_recorded rfl, List.find?_map]
  cases hfind : (namedKeys found).find? ((fun entry => decide (entry.1 = key)) ∘ fun k => (k, naming found k)) with
  | some k =>
    obtain rfl : k = key := by simpa using List.find?_some hfind
    rfl
  | none =>
    have hnot : key ∉ namedKeys found := fun hmem => by simpa using List.find?_eq_none.1 hfind key hmem
    rw [mem_namedKeys_iff_naming, not_not] at hnot
    rw [hnot]
    rfl

/-! ## The whole index -/

/-- An index holds what its calls say, whatever their order. -/
theorem history_determines_index (calls : List Call) :
    List.Forall₂ (LastDeclared · calls) (declaredKeys calls) (ofCalls calls).actions ∧
      (∀ key, (ofCalls calls).referencesFor key = naming (recordsIn calls) key) ∧
      (ofCalls calls).unresolved =
        ((namedKeys (recordsIn calls)).filter fun key => key ∉ declaredKeys calls).map
          fun key => (key, naming (recordsIn calls) key) := by
  refine ⟨ofCalls_actions calls, fun key => ?_, ?_⟩
  · rw [← recordAll_referencesFor]
    unfold referencesFor
    rw [ofCalls_recorded]
  · unfold unresolved
    rw [ofCalls_recorded, recordAll_recorded rfl, List.filter_map]
    congr 1
    refine List.filter_congr fun key _ => ?_
    rw [Function.comp_apply, ← ofCalls_keys, Bool.eq_iff_iff]
    simp [← contains_iff]

/-- A reference that was recorded before the declaration of its key is on file, but it is none of the action. -/
example :
    let calls : List Call := [.record ⟨"p.html", ⟨"/api/a", .embeddedUrl⟩⟩, .declare "/api/a" "a.json" .null,
      .record ⟨"q.html", ⟨"/api/a.json", .embeddedUrl⟩⟩]
    (ofCalls calls).actions.map (·.references.map (·.source)) = [[("q.html" : Text)]] ∧
      ((ofCalls calls).referencesFor "/api/a").map (·.source) = [("p.html" : Text), ("q.html" : Text)] := by decide

end ActionSweep.Index
