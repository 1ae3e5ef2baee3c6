/-
What an index holds after an action was declared or a list of findings recorded in it: a declaration
stands at the place of its key, or behind all others; every action has gained the references that name
its key, and every key that was named has all references that name it, both in the order of the
findings. From this the references of a scan add up: the lists of the actions and the unresolved lists
together are the findings that name a key, each counted once.
-/
import ActionSweep.ScanResult
import ActionSweep.Proofs.Lists
import Mathlib.Data.List.Induction

namespace ActionSweep

/-- A reference as it stands in a file. -/
structure Finding where
  file : Text
  raw : RawReference
deriving Repr, DecidableEq

namespace Finding

/-- The key that a finding names, if it names one. -/
def key? (f : Finding) : Option Text := Key.ofReference .action f.raw.path

/-- The reference that a finding is filed as. -/
def reference (f : Finding) : Reference := ⟨f.file, f.raw.provenance, f.raw.path⟩

/-- The references among some findings that name a key, in their order. -/
def naming (found : List Finding) (key : Text) : List Reference :=
  (found.filter fun f => f.key? = some key).map reference

/-- The references among some findings that name any key, in their order. -/
def namingAny (found : List Finding) : List Reference :=
  (found.filter fun f => f.key?.isSome).map reference

@[simp] theorem naming_nil (key : Text) : naming [] key = [] := rfl

theorem naming_cons (f : Finding) (found : List Finding) (key : Text) :
    naming (f :: found) key =
      if f.key? = some key then f.reference :: naming found key else naming found key := by
  unfold naming
  rw [List.filter_cons]
  by_cases h : f.key? = some key
  · simp [h]
  · simp [h]

theorem naming_append (found more : List Finding) (key : Text) :
    naming (found ++ more) key = naming found key ++ naming more key := by
  unfold naming; rw [List.filter_append, List.map_append]

theorem mem_naming {found : List Finding} {key : Text} {r : Reference} :
    r ∈ naming found key ↔ ∃ f ∈ found, f.key? = some key ∧ f.reference = r := by
  unfold naming
  simp only [List.mem_map, List.mem_filter, decide_eq_true_eq, and_assoc]

/-- A reference that names a key has a spelling of that key. -/
theorem key_of_mem_naming {found : List Finding} {key : Text} {r : Reference}
    (h : r ∈ naming found key) : Key.ofReference .action r.original = some key := by
  obtain ⟨f, -, hf, rfl⟩ := mem_naming.1 h
  exact hf

theorem naming_eq_nil_iff {found : List Finding} {key : Text} :
    naming found key = [] ↔ ∀ f ∈ found, f.key? ≠ some key := by
  unfold naming
  rw [List.map_eq_nil_iff, List.filter_eq_nil_iff]
  simp only [decide_eq_true_eq, ne_eq]

theorem naming_sublist {found more : List Finding} (h : found.Sublist more) (key : Text) :
    (naming found key).Sublist (naming more key) :=
  (h.filter _).map _

end Finding

namespace Index

open Finding (naming namingAny)

/-! ## Declarations -/

theorem contains_iff {i : Index} {key : Text} : i.contains key = true ↔ key ∈ i.actions.map (·.key) := by
  unfold contains
  simp [List.any_eq_true]

theorem putAction_keys (a : Action) :
    ∀ l : List Action, (putAction a l).map (·.key) =
      if a.key ∈ l.map (·.key) then l.map (·.key) else l.map (·.key) ++ [a.key]
  | [] => by simp [putAction]
  | b :: l => by
    unfold putAction
    by_cases h : b.key = a.key
    · simp [h]
    · rw [if_neg h, List.map_cons, putAction_keys a l]
      simp only [List.map_cons, List.mem_cons, Ne.symm h, false_or]
      split
      · rfl
      · rfl

/-- A declaration takes the place of the one with its key. -/
theorem mem_putAction {a b : Action} : ∀ {l : List Action}, (l.map (·.key)).Nodup →
    (b ∈ putAction a l ↔ b = a ∨ b ∈ l ∧ b.key ≠ a.key)
  | [], _ => by simp [putAction]
  | c :: l, h => by
    obtain ⟨hc, hl⟩ := List.nodup_cons.1 h
    unfold putAction
    split
    · rename_i hk
      constructor
      · intro hb
        rcases List.mem_cons.1 hb with rfl | hb
        · exact .inl rfl
        · refine .inr ⟨List.mem_cons_of_mem _ hb, fun he => hc ?_⟩
          show c.key ∈ _
          rw [hk, ← he]
          exact List.mem_map_of_mem hb
      · rintro (rfl | ⟨hb, hne⟩)
        · exact List.mem_cons_self ..
        · rcases List.mem_cons.1 hb with rfl | hb
          · exact absurd hk hne
          · exact List.mem_cons_of_mem _ hb
    · rename_i hk
      rw [List.mem_cons, mem_putAction hl, List.mem_cons]
      constructor
      · rintro (rfl | rfl | ⟨hb, hne⟩)
        · exact .inr ⟨.inl rfl, hk⟩
        · exact .inl rfl
        · exact .inr ⟨.inr hb, hne⟩
      · rintro (rfl | ⟨rfl | hb, hne⟩)
        · exact .inr (.inl rfl)
        · exact .inl rfl
        · exact .inr (.inr ⟨hb, hne⟩)

/-- A declaration of a new key stands behind all others. -/
theorem putAction_new (a : Action) : ∀ {l : List Action}, a.key ∉ l.map (·.key) → putAction a l = l ++ [a]
  | [], _ => rfl
  | b :: l, h => by
    obtain ⟨hb, hl⟩ := not_or.1 (mt List.mem_cons.2 h)
    unfold putAction
    rw [if_neg (Ne.symm hb), putAction_new a hl, List.cons_append]

/-! ## Records -/

/-- Records some findings, in order. -/
def recordAll (i : Index) (found : List Finding) : Index :=
  found.foldl (fun i f => i.record f.file f.raw) i

theorem recordAll_append (i : Index) (found more : List Finding) :
    i.recordAll (found ++ more) = (i.recordAll found).recordAll more :=
  List.foldl_append ..

/-! ## The references of the actions -/

/-- An action with further references. -/
def attached (rs : Text → List Reference) (a : Action) : Action :=
  { a with references := a.references ++ rs a.key }

theorem record_actions (i : Index) (f : Finding) :
    (i.record f.file f.raw).actions = i.actions.map (attached (naming [f])) := by
  unfold record attached
  rw [show Key.ofReference .action f.raw.path = f.key? from rfl]
  cases hk : f.key? with
  | none => simp [Finding.naming_cons, hk]
  | some key =>
    simp only [attach, Finding.naming_cons, hk, Option.some.injEq, Finding.naming_nil]
    refine List.map_congr_left fun a _ => ?_
    by_cases h : a.key = key
    · subst h; simp [Finding.reference]
    · simp [h, Ne.symm h]

theorem attached_attached (rs more : Text → List Reference) (a : Action) :
    attached more (attached rs a) = attached (fun k => rs k ++ more k) a := by
  unfold attached; simp

/-- After some findings every action has gained those that name it. -/
theorem recordAll_actions :
    ∀ (found : List Finding) (i : Index), (i.recordAll found).actions = i.actions.map (attached (naming found))
  | [], i => by
    show i.actions = i.actions.map (attached (naming []))
    rw [List.map_congr_left (g := id) fun a _ => by simp [attached], List.map_id]
  | f :: found, i => by
    show ((i.record f.file f.raw).recordAll found).actions = _
    rw [recordAll_actions found, record_actions, List.map_map]
    refine List.map_congr_left fun a _ => ?_
    rw [Function.comp_apply, attached_attached]
    congr 1
    funext k
    exact (Finding.naming_append [f] found k).symm

theorem recordAll_keys (found : List Finding) (i : Index) :
    (i.recordAll found).actions.map (·.key) = i.actions.map (·.key) := by
  rw [recordAll_actions, List.map_map]; rfl

theorem recordAll_contains (found : List Finding) (i : Index) (key : Text) :
    (i.recordAll found).contains key = i.contains key := by
  rw [Bool.eq_iff_iff, contains_iff, contains_iff, recordAll_keys]

/-! ## The references on file -/

/-- The keys that some findings name, in the order in which they are first named. -/
def namedKeys (found : List Finding) : List Text := (found.filterMap Finding.key?).eraseDups

theorem nodup_namedKeys (found : List Finding) : (namedKeys found).Nodup := nodup_eraseDups _

theorem mem_namedKeys {found : List Finding} {key : Text} :
    key ∈ namedKeys found ↔ ∃ f ∈ found, f.key? = some key := by
  unfold namedKeys
  rw [List.mem_eraseDups, List.mem_filterMap]

theorem mem_namedKeys_iff_naming {found : List Finding} {key : Text} :
    key ∈ namedKeys found ↔ naming found key ≠ [] := by
  rw [mem_namedKeys, ne_eq, Finding.naming_eq_nil_iff]
  push Not
  rfl

theorem namedKeys_concat (found : List Finding) (f : Finding) :
    namedKeys (found ++ [f]) =
      match f.key? with
      | none => namedKeys found
      | some key => if key ∈ namedKeys found then namedKeys found else namedKeys found ++ [key] := by
  unfold namedKeys
  rw [List.filterMap_append]
  cases hk : f.key? with
  | none => simp [hk]
  | some key =>
    simp only [List.filterMap_cons_some hk, List.filterMap_nil, List.mem_eraseDups]
    exact eraseDups_concat _ _

/-- Filing a reference among lists by distinct keys. -/
theorem file_map (key : Text) (r : Reference) (rs : Text → List Reference) :
    ∀ {keys : List Text}, keys.Nodup → (key ∉ keys → rs key = []) →
      file key r (keys.map fun k => (k, rs k)) =
        (if key ∈ keys then keys else keys ++ [key]).map
          fun k => (k, if k = key then rs k ++ [r] else rs k)
  | [], _, hrs => by simp [file, hrs]
  | k :: keys, hnd, hrs => by
    obtain ⟨hk, hnd⟩ := List.nodup_cons.1 hnd
    simp only [List.map_cons, file]
    by_cases h : k = key
    · subst h
      simp only [if_true, List.mem_cons, true_or, List.map_cons, List.cons.injEq, true_and]
      refine List.map_congr_left fun k' hk' => ?_
      rw [if_neg]
      rintro rfl
      exact hk hk'
    · have hmem : key ∈ k :: keys ↔ key ∈ keys := by simp [Ne.symm h]
      rw [if_neg h, file_map key r rs hnd fun hn => hrs fun hm => hn (hmem.1 hm)]
      simp only [hmem]
      split <;> simp [h]

/-- After some findings in an index without references, each key that was named stands once, in the
order of the first namings, with all references that name it. -/
theorem recordAll_recorded {i : Index} (hi : i.recorded = []) (found : List Finding) :
    (i.recordAll found).recorded = (namedKeys found).map fun k => (k, naming found k) := by
  induction found using List.reverseRecOn with
  | nil => simpa [recordAll, namedKeys] using hi
  | append_singleton found f ih =>
    have hrec : (i.recordAll (found ++ [f])).recorded =
        ((i.recordAll found).record f.file f.raw).recorded := by
      rw [recordAll_append]; rfl
    rw [hrec, namedKeys_concat]
    unfold record
    rw [show Key.ofReference .action f.raw.path = f.key? from rfl]
    cases hk : f.key? with
    | none =>
      simp only [ih]
      refine List.map_congr_left fun k _ => ?_
      simp [Finding.naming_append, Finding.naming_cons, hk]
    | some key =>
      simp only [ih]
      -- filing appends to the list of the key, or starts it if nothing named the key before
      rw [file_map key _ (naming found) (nodup_namedKeys found)
        fun hn => by_contra fun he => hn (mem_namedKeys_iff_naming.2 he)]
      refine List.map_congr_left fun k _ => ?_
      simp only [Finding.naming_append, Finding.naming_cons, hk, Option.some.injEq,
        Finding.naming_nil, Finding.reference]
      by_cases h : k = key
      · simp [h]
      · simp [h, Ne.symm h]

/-- The unresolved lists: the references that name a key which no action has. -/
theorem recordAll_unresolved {i : Index} (hi : i.recorded = []) (found : List Finding) :
    (i.recordAll found).unresolved =
      ((namedKeys found).filter fun k => !i.contains k).map fun k => (k, naming found k) := by
  unfold unresolved
  rw [recordAll_recorded hi, List.filter_map]
  congr 1
  refine List.filter_congr fun k _ => ?_
  simp only [Function.comp_apply, recordAll_contains]

theorem mem_recordAll_unresolved {i : Index} (hi : i.recorded = []) {found : List Finding}
    {e : Text × List Reference} :
    e ∈ (i.recordAll found).unresolved ↔
      e.2 = naming found e.1 ∧ e.2 ≠ [] ∧ i.contains e.1 = false := by
  rw [recordAll_unresolved hi]
  simp only [List.mem_map, List.mem_filter, Bool.not_eq_true', mem_namedKeys_iff_naming]
  constructor
  · rintro ⟨k, ⟨h1, h2⟩, rfl⟩
    exact ⟨rfl, h1, h2⟩
  · rintro ⟨h1, h2, h3⟩
    exact ⟨e.1, ⟨h1 ▸ h2, h3⟩, Prod.ext rfl h1.symm⟩

/-! ## Accounts -/

/-- The references that name one of some distinct keys, key by key, are those findings that name one
of them. -/
theorem flatMap_naming_perm (found : List Finding) :
    ∀ {keys : List Text}, keys.Nodup →
      (keys.flatMap (naming found)).Perm
        ((found.filter fun f => f.key?.any (keys.contains ·)).map Finding.reference)
  | [], _ => by simp
  | key :: keys, hnd => by
    obtain ⟨hk, hnd⟩ := List.nodup_cons.1 hnd
    rw [List.flatMap_cons]
    refine ((flatMap_naming_perm found hnd).append_left _).trans ?_
    unfold naming
    rw [← List.map_append]
    refine List.Perm.map _ ?_
    -- what names the first key and what names a later one are the two parts of what names any of them
    refine List.Perm.trans ?_ (List.filter_append_perm (fun f => f.key? = some key) _)
    rw [List.filter_filter, List.filter_filter]
    refine List.Perm.of_eq ?_
    congr 1
    · refine List.filter_congr fun f _ => ?_
      cases f.key? with
      | none => simp
      | some k => by_cases h : k = key <;> simp [h]
    · refine List.filter_congr fun f _ => ?_
      cases f.key? with
      | none => simp
      | some k =>
        by_cases h : k = key
        · subst h; simpa using hk
        · simp [h]

end Index

end ActionSweep
