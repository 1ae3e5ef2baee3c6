/-
What reading gives. A value that was read and holds no number with a fraction is one that is read back from its own
text: its numerals are no longer than those that are read, and none of its objects has a name twice. Put among other
brackets such a value is readable exactly as long as all of them together do not nest too deep.
-/
import ActionSweep.Fault
import ActionSweep.Proofs.Extract.Document
import ActionSweep.Proofs.Json.RoundTrip
import ActionSweep.Proofs.Nesting
import ActionSweep.Proofs.Outcome

namespace ActionSweep

namespace Value

/-! ## Merged fields -/

theorem names_putField {name : Text} {v : Value} : ∀ {fs : List (Text × Value)}, name ∈ fs.map (·.1) →
    (putField name v fs).map (·.1) = fs.map (·.1)
  | (n, w) :: fs, h => by
    rw [putField]
    by_cases hn : n = name
    · rw [if_pos hn]
      rfl
    · have hrest : name ∈ fs.map (·.1) := (List.mem_cons.1 h).resolve_left (Ne.symm hn)
      rw [if_neg hn, List.map_cons, names_putField hrest]
      rfl

theorem nodup_putField {name : Text} {v : Value} {fs : List (Text × Value)} (h : (fs.map (·.1)).Nodup) :
    ((putField name v fs).map (·.1)).Nodup := by
  by_cases hname : name ∈ fs.map (·.1)
  · rwa [names_putField hname]
  · rw [Json.putField_new v hname, List.map_append]
    refine List.nodup_append.2 ⟨h, by simp, ?_⟩
    rintro n hn m hm rfl
    obtain rfl := List.mem_singleton.1 hm
    exact hname hn

theorem mem_putField {name : Text} {v : Value} {f : Text × Value} : ∀ {fs : List (Text × Value)},
    f ∈ putField name v fs → f = (name, v) ∨ f ∈ fs
  | [], h => .inl (List.mem_singleton.1 h)
  | (n, w) :: fs, h => by
    rw [putField] at h
    split at h
    · rename_i hn
      rw [hn] at h
      exact (List.mem_cons.1 h).imp_right (List.mem_cons_of_mem _)
    · rcases List.mem_cons.1 h with rfl | h
      · exact .inr (List.mem_cons_self ..)
      · exact (mem_putField h).imp_right (List.mem_cons_of_mem _)

theorem fieldD_putField {name : Text} {v : Value} : ∀ {fs : List (Text × Value)}, fieldD (putField name v fs) name = v
  | [] => by simp [putField, fieldD, field?]
  | (n, w) :: fs => by
    have ih := @fieldD_putField name v fs
    unfold fieldD at ih ⊢
    rw [putField]
    by_cases hn : n = name
    · simp [field?, hn]
    · simpa [field?, hn] using ih

/-- Putting a field that is there changes nothing. -/
theorem putField_self {name : Text} {v : Value} (hv : v ≠ .null) : ∀ {fs : List (Text × Value)}, fieldD fs name = v →
    putField name v fs = fs
  | [], h => absurd h.symm hv
  | (n, w) :: fs, h => by
    unfold fieldD at h
    rw [putField]
    by_cases hn : n = name
    · rw [field?, if_pos hn] at h
      rw [if_pos hn, ← h]
      rfl
    · rw [field?, if_neg hn] at h
      rw [if_neg hn, putField_self hv h]

theorem nodup_mergeFields (fs : List (Text × Value)) : ((mergeFields fs).map (·.1)).Nodup := by
  unfold mergeFields
  refine List.foldlRecOn (motive := fun merged : List (Text × Value) => (merged.map (·.1)).Nodup) fs _ ?_ ?_
  · exact List.nodup_nil
  · exact fun _ h _ _ => nodup_putField h

theorem mem_of_mergeFields {fs : List (Text × Value)} : ∀ f ∈ mergeFields fs, f ∈ fs := by
  unfold mergeFields
  refine List.foldlRecOn (motive := fun merged => ∀ f ∈ merged, f ∈ fs) fs _ nofun ?_
  intro merged h g hg f hf
  rcases mem_putField hf with rfl | hf
  · exact hg
  · exact h f hf

/-! ## Numbers with a fraction -/

/-- There is a number with a fraction somewhere in a value. -/
inductive HoldsFloat : Value → Prop
  | float (x : Float) : HoldsFloat (.float x)
  | item {v : Value} {items : List Value} (hv : v ∈ items) (h : HoldsFloat v) : HoldsFloat (.list items)
  | field {v : Value} {name : Text} {fields : List (Text × Value)} (hv : (name, v) ∈ fields) (h : HoldsFloat v) :
      HoldsFloat (.object fields)

/-! ## Kinds of values -/

/-- Whether a value is a truth value or a number. -/
def isScalar : Value → Bool
  | bool _ | int _ | float _ => true
  | _ => false

/-- A value of a kind that texts have a notation for. -/
def InText : Value → Prop
  | other _ _ _ _ => False
  | _ => True

end Value

namespace Json

open Value (HoldsFloat NestedAt)

/-! ## What is read -/

theorem digitsValue_lt {ds : Text} (h : ∀ c ∈ ds, isDigit c = true) : digitsValue ds < 10 ^ ds.length := by
  -- digits are read from the left, so the bound is on what they make of any number that stands before them
  have hvalue : ∀ (ds : Text) (n : Nat), (∀ c ∈ ds, isDigit c = true) →
      ds.foldl (fun n c => 10 * n + (c.toNat - '0'.toNat)) n < (n + 1) * 10 ^ ds.length := by
    intro ds
    induction ds with
    | nil => intro n _; simp
    | cons c ds ih =>
      intro n h
      have hc : c.toNat - '0'.toNat < 10 := by
        have hdigit := h c (List.mem_cons_self ..)
        simp only [isDigit, Bool.and_eq_true, decide_eq_true_eq, Char.le_def, UInt32.le_iff_toNat_le] at hdigit
        have hnine : c.toNat ≤ 57 := hdigit.2
        have hzero : '0'.toNat = 48 := rfl
        omega
      calc ds.foldl (fun n c => 10 * n + (c.toNat - '0'.toNat)) (10 * n + (c.toNat - '0'.toNat))
          < (10 * n + (c.toNat - '0'.toNat) + 1) * 10 ^ ds.length := ih _ fun d hd => h d (List.mem_cons_of_mem c hd)
        _ ≤ ((n + 1) * 10) * 10 ^ ds.length := Nat.mul_le_mul_right _ (by omega)
        _ = (n + 1) * 10 ^ (c :: ds).length := by rw [List.length_cons, Nat.pow_succ']; ring
  simpa [digitsValue] using hvalue ds 0 h

/-- A number below the limit has a numeral that is read. -/
theorem numeral_short {n : Nat} (h : n < 10 ^ numeralLimit) : (Text.ofNat n).length ≤ numeralLimit :=
  (Nat.length_toDigits_le_iff (by decide) (by decide)).2 h

theorem wholeDigits_digits (t : Text) : ∀ c ∈ (wholeDigits t).1, isDigit c = true := by
  unfold wholeDigits
  split
  · simp [isDigit]
  · exact fun c hc => List.mem_takeWhile_imp hc

theorem number_ok {t rest : Text} {v : Value} (h : number t = .ok (v, rest)) :
    (∃ x, v = .float x) ∨ ∃ n : Int, v = .int n ∧ n.natAbs < 10 ^ numeralLimit := by
  unfold number at h
  split at h
  rename_i negative body _
  have hdigits := wholeDigits_digits body
  dsimp only at h
  split at h
  · cases h
  split at h
  · cases h
    exact .inl ⟨_, rfl⟩
  split at h
  · cases h
    exact .inl ⟨_, rfl⟩
  split at h
  · cases h
  rename_i hlong
  cases h
  refine .inr ⟨_, rfl, ?_⟩
  have hvalue : digitsValue (wholeDigits body).1 < 10 ^ numeralLimit :=
    (digitsValue_lt hdigits).trans_le (Nat.pow_le_pow_right (by decide) (Nat.not_lt.1 hlong))
  split
  · rwa [Int.natAbs_neg]
  · exact hvalue

/-- The words stand for values without numerals. -/
theorem word?_ok {t rest : Text} {v : Value} (h : word? t = some (v, rest)) :
    v = .null ∨ (∃ b, v = .bool b) ∨ ∃ x, v = .float x := by
  obtain ⟨w, hw, hfound⟩ := List.exists_of_findSome?_eq_some h
  obtain ⟨_, -, hv⟩ := Option.map_eq_some_iff.1 hfound
  obtain ⟨rfl, -⟩ := Prod.mk.inj hv
  simp only [wordValues, List.mem_cons, List.not_mem_nil, or_false] at hw
  rcases hw with rfl | rfl | rfl | rfl | rfl | rfl <;> simp

mutual

theorem fits_value : ∀ (n : Nat) {room : Nat} {t rest : Text} {v : Value}, value room n t = .ok (v, rest) → Fits room v
  | 0, _, _, _, _, h => by
    rw [value] at h
    cases h
  | n + 1, room, t, rest, v, h => by
    unfold value at h
    split at h
    · cases h
    · obtain ⟨_, -, h⟩ := Outcome.map_ok.1 h
      cases h
      exact trivial
    · split at h
      · cases h
      rename_i hroom
      split at h
      · cases h
        exact ⟨Nat.pos_of_ne_zero hroom, trivial⟩
      · obtain ⟨⟨vs, _⟩, hitems, h⟩ := Outcome.map_ok.1 h
        cases h
        exact ⟨Nat.pos_of_ne_zero hroom, fitsItems_iff.2 (fits_elements n hitems)⟩
    · split at h
      · cases h
      rename_i hroom
      split at h
      · cases h
        exact ⟨Nat.pos_of_ne_zero hroom, List.nodup_nil, trivial⟩
      · obtain ⟨⟨fs, _⟩, hfields, h⟩ := Outcome.map_ok.1 h
        cases h
        refine ⟨Nat.pos_of_ne_zero hroom, Value.nodup_mergeFields fs, fitsFields_iff.2 fun f hmem => ?_⟩
        exact fits_members n hfields f (Value.mem_of_mergeFields f hmem)
    · split at h
      · rename_i hword
        cases h
        rcases word?_ok hword with rfl | ⟨b, rfl⟩ | ⟨x, rfl⟩
        · exact trivial
        · exact trivial
        · exact trivial
      · rcases number_ok h with ⟨x, rfl⟩ | ⟨m, rfl, hm⟩
        · exact trivial
        · exact numeral_short hm

theorem fits_elements : ∀ (n : Nat) {room : Nat} {t rest : Text} {vs : List Value}, elements room n t = .ok (vs, rest) →
    ∀ v ∈ vs, Fits room v
  | 0, _, _, _, _, h, _, _ => by
    rw [elements] at h
    cases h
  | n + 1, room, t, rest, vs, h, w, hw => by
    unfold elements at h
    split at h
    · cases h
    rename_i v _ hvalue
    have hfirst := fits_value n hvalue
    split at h
    · cases h
      exact List.mem_singleton.1 hw ▸ hfirst
    · obtain ⟨⟨vs, _⟩, hitems, h⟩ := Outcome.map_ok.1 h
      cases h
      rcases List.mem_cons.1 hw with rfl | hw
      · exact hfirst
      · exact fits_elements n hitems w hw
    · cases h

theorem fits_members : ∀ (n : Nat) {room : Nat} {t rest : Text} {fs : List (Text × Value)},
    members room n t = .ok (fs, rest) → ∀ f ∈ fs, Fits room f.2
  | 0, _, _, _, _, h, _, _ => by
    rw [members] at h
    cases h
  | n + 1, room, t, rest, fs, h, f, hf => by
    unfold members at h
    split at h
    · split at h
      · cases h
      split at h
      · split at h
        · cases h
        rename_i v _ hvalue
        have hfirst := fits_value n hvalue
        split at h
        · cases h
          rw [List.mem_singleton.1 hf]
          exact hfirst
        · obtain ⟨⟨fs, _⟩, hfields, h⟩ := Outcome.map_ok.1 h
          cases h
          rcases List.mem_cons.1 hf with rfl | hf
          · exact hfirst
          · exact fits_members n hfields f hf
        · cases h
      · cases h
    · cases h

end

/-- What was read is a value that a text can hold. -/
theorem fits_of_read {room : Nat} {t : Text} {v : Value} (h : readWithin room t = .ok v) : Fits room v := by
  unfold readWithin document at h
  split at h
  · rename_i hdocument
    cases h
    split at hdocument
    · cases hdocument
    split at hdocument
    · cases hdocument
    rename_i hvalue
    split at hdocument
    · cases hdocument
      exact fits_value _ hvalue
    · cases hdocument
  · cases h

/-- What a walk over a value meets can be written as a list. -/
theorem Fits.items {room : Nat} {v : Value} {entries : List Value} (h : Fits room v) (hroom : 0 < room)
    (hitems : v.items = .ok entries) : Fits room (.list entries) := by
  cases v with
  | list vs =>
    cases hitems
    exact h
  | text t =>
    cases hitems
    refine ⟨hroom, fitsItems_iff.2 fun w hw => ?_⟩
    obtain ⟨c, -, rfl⟩ := List.mem_map.1 hw
    trivial
  | object fields =>
    cases hitems
    refine ⟨hroom, fitsItems_iff.2 fun w hw => ?_⟩
    obtain ⟨f, -, rfl⟩ := List.mem_map.1 hw
    trivial
  | other _ _ _ _ => exact h.elim
  | null | bool _ | int _ | float _ => cases hitems

theorem Fits.putField {room : Nat} {name : Text} {v : Value} {fields : List (Text × Value)} (h : Fits room (.object fields))
    (hv : Fits (room - 1) v) : Fits room (.object (Value.putField name v fields)) := by
  refine ⟨h.1, Value.nodup_putField h.2.1, fitsFields_iff.2 fun f hf => ?_⟩
  rcases Value.mem_putField hf with rfl | hf
  · exact hv
  · exact fitsFields_iff.1 h.2.2 f hf

/-- What is in an object that was read has a notation, too. -/
theorem inText_fieldD {room : Nat} {t : Text} {fields : List (Text × Value)} (h : readWithin room t = .ok (.object fields))
    (name : Text) : (Value.fieldD fields name).InText := by
  cases hfield : Value.fieldD fields name with
  | other _ _ _ _ => exact fitsFields_iff.1 (fits_of_read h).2.2 _ (Value.mem_of_fieldD hfield nofun)
  | _ => exact trivial

/-- A text whose brackets nest deeper than there is room for. -/
def TooDeep (room : Nat) (t : Text) : Prop := ∃ f innermost, readWithin room t = .error f ∧ f.problem = .nesting innermost

/-- The document that the bytes of a file are, if they can be decoded and read. -/
def understood? (room : Nat) (decode : Bytes → Except Utf8Fault Text) (bytes : Bytes) : Option Value :=
  (decode bytes).toOption.bind fun t => (readWithin room t.unifyLines).toOption

theorem understood?_eq_some {room : Nat} {decode : Bytes → Except Utf8Fault Text} {bytes : Bytes} {v : Value}
    (h : understood? room decode bytes = some v) : ∃ t, decode bytes = .ok t ∧ readWithin room t.unifyLines = .ok v := by
  unfold understood? at h
  cases hbytes : decode bytes with
  | error f =>
    rw [hbytes] at h
    cases h
  | ok t =>
    rw [hbytes] at h
    cases hread : readWithin room t.unifyLines with
    | error f => simp [Except.toOption, hread] at h
    | ok w => exact ⟨t, rfl, by simpa [Except.toOption, hread] using h⟩

/-- What is wrong with a text that does not nest too deep is that it is not JSON. -/
theorem isValue_of_read {room : Nat} {t : Text} {f : JsonFault} (h : readWithin room t = .error f) (hdeep : ¬ TooDeep room t) :
    (Fault.json f).isValue = true := by
  cases hproblem : f.problem with
  | nesting innermost => exact absurd ⟨f, innermost, h, hproblem⟩ hdeep
  | _ => simp only [Fault.isValue, hproblem]

/-- A text can hold what it gives back, and besides numbers with a fraction. -/
theorem readable_iff {v : Value} : ∀ {room : Nat}, Readable room v ↔ Fits room v ∧ ¬ v.HoldsFloat := by
  induction v using Value.induction_mem with
  | list items ih =>
    intro room
    have hfloat : (¬ (Value.list items).HoldsFloat) ↔ ∀ v ∈ items, ¬ v.HoldsFloat :=
      ⟨fun h v hv hfloat => h (.item hv hfloat), fun h => by rintro (_ | ⟨hv, hfloat⟩); exact h _ hv hfloat⟩
    rw [hfloat]
    simp only [Readable, Fits, readableItems_iff, fitsItems_iff]
    rw [and_assoc, ← forall₂_and]
    exact and_congr_right fun _ => forall₂_congr fun v hv => ih v hv
  | object fields ih =>
    intro room
    have hfloat : (¬ (Value.object fields).HoldsFloat) ↔ ∀ f ∈ fields, ¬ f.2.HoldsFloat :=
      ⟨fun h f hf hfloat => h (.field hf hfloat), fun h => by rintro (_ | _ | ⟨hv, hfloat⟩); exact h _ hv hfloat⟩
    rw [hfloat]
    simp only [Readable, Fits, readableFields_iff, fitsFields_iff]
    rw [and_assoc, and_assoc, ← forall₂_and]
    exact and_congr_right fun _ => and_congr_right fun _ => forall₂_congr fun f hf => ih f hf
  | leaf v hleaf =>
    intro room
    cases v with
    | null | bool _ | text _ => exact iff_of_true trivial ⟨trivial, nofun⟩
    | int m => exact ⟨fun h => ⟨h, nofun⟩, And.left⟩
    | float x => exact iff_of_false id fun h => h.2 (.float x)
    | list items => exact absurd (.list items) hleaf
    | object fields => exact absurd (.object fields) hleaf
    | other _ _ _ _ => exact iff_of_false id And.left

/-- What was read can be read back, unless there is a number with a fraction in it. -/
theorem readable_of_read {room : Nat} {t : Text} {v : Value} (h : readWithin room t = .ok v) (hv : ¬ v.HoldsFloat) :
    Readable room v :=
  readable_iff.2 ⟨fits_of_read h, hv⟩

/-- Whether a value is read back turns on what it holds, and then on how deep it nests. -/
theorem readable_within {v : Value} : ∀ {room k : Nat}, Readable room v → (Readable k v ↔ ∀ n, NestedAt n v → n < k) := by
  induction v using Value.induction_mem with
  | list items ih =>
    intro room k h
    have hitems := readableItems_iff.1 h.2
    rw [Value.nested_list_lt, ← forall₂_congr fun v hv => ih v hv (k := k - 1) (hitems v hv), ← readableItems_iff]
    rfl
  | object fields ih =>
    intro room k h
    have hfields := readableFields_iff.1 h.2.2
    rw [Value.nested_object_lt, ← forall₂_congr fun f hf => ih f hf (k := k - 1) (hfields f hf), ← readableFields_iff]
    exact and_congr_right fun _ => and_iff_right h.2.1
  | leaf v hleaf =>
    intro room k h
    -- only brackets take room, and there are none
    have hflat : ∀ n, ¬ NestedAt n v := by
      rintro _ (_ | _ | ⟨hv, hn⟩ | ⟨hv, hn⟩)
      · exact hleaf (.list _)
      · exact hleaf (.object _)
      · exact hleaf (.list _)
      · exact hleaf (.object _)
    refine iff_of_true ?_ fun n hn => absurd hn (hflat n)
    cases v with
    | null | bool _ | text _ => exact trivial
    | int m => exact h
    | list items => exact absurd (.list items) hleaf
    | object fields => exact absurd (.object fields) hleaf
    | float x | other _ _ _ _ => exact h.elim

theorem not_readable_of_float {v : Value} (hv : v.HoldsFloat) {room : Nat} : ¬ Readable room v :=
  fun h => (readable_iff.1 h).2 hv

/-- A value that is readable among some brackets is read back from its text exactly if it is readable on its own. -/
theorem read_render_iff {room limit : Nat} {v : Value} (h : Readable room v) :
    readWithin limit (render v) = .ok v ↔ Readable limit v :=
  ⟨fun hread => readable_of_read hread fun hfloat => not_readable_of_float hfloat h, read_render⟩

end Json

end ActionSweep
