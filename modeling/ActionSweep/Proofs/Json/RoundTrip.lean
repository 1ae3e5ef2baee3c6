/-
JSON texts that are written are read back. A value whose integers are of a readable length, whose objects have no name
twice and whose brackets do not nest deeper than they can be read is, as text and as bytes of a file, read as that
value.
-/
import ActionSweep.Text.Utf8
import ActionSweep.Proofs.Json.Floats

namespace ActionSweep

namespace Json

/-! ## White space -/

theorem skipSpace_cons {c : Char} (h : isSpace c = false) (t : Text) : skipSpace (c :: t) = c :: t := by
  rw [skipSpace, List.dropWhile_cons_of_neg (by simp [h])]

theorem skipSpace_newline (level : Nat) (t : Text) : skipSpace (newline level ++ t) = skipSpace t := by
  have hspace : ∀ c ∈ newline level, isSpace c = true := by
    intro c hc
    rcases List.mem_cons.1 hc with rfl | hc
    · rfl
    · rw [List.eq_of_mem_replicate hc]
      rfl
  rw [skipSpace, List.dropWhile_append_of_pos hspace]
  rfl

/-! ## Values -/

theorem writeItems_cons {level : Nat} {v : Value} {vs : List Value} :
    writeItems level (v :: vs) = ',' :: (newline (level + 1) ++ (write (level + 1) v ++ writeItems level vs)) := by
  rw [writeItems, List.append_assoc, List.cons_append]

theorem writeFields_cons {level : Nat} {name : Text} {v : Value} {fs : List (Text × Value)} :
    writeFields level ((name, v) :: fs) =
      ',' :: (newline (level + 1) ++ (writeString name ++ (": " ++ (write (level + 1) v ++ writeFields level fs)))) := by
  rw [writeFields]
  simp only [List.append_assoc, List.cons_append]

mutual

/-- A value that is read back from its text: no number with a fraction, no numeral and no nesting beyond what is
read, and no object with a name twice. -/
def Readable (room : Nat) : Value → Prop
  | .null | .bool _ | .text _ => True
  | .int n => (Text.ofNat n.natAbs).length ≤ numeralLimit
  | .list vs => 0 < room ∧ ReadableItems (room - 1) vs
  | .object fs => 0 < room ∧ (fs.map (·.1)).Nodup ∧ ReadableFields (room - 1) fs
  | .float _ | .other _ _ _ _ => False

def ReadableItems (room : Nat) : List Value → Prop
  | [] => True
  | v :: vs => Readable room v ∧ ReadableItems room vs

def ReadableFields (room : Nat) : List (Text × Value) → Prop
  | [] => True
  | (_, v) :: fs => Readable room v ∧ ReadableFields room fs

end

theorem readableItems_iff {room : Nat} : ∀ {vs : List Value}, ReadableItems room vs ↔ ∀ v ∈ vs, Readable room v
  | [] => by simp [ReadableItems]
  | v :: vs => by rw [ReadableItems, readableItems_iff, List.forall_mem_cons]

theorem readableFields_iff {room : Nat} : ∀ {fs : List (Text × Value)}, ReadableFields room fs ↔ ∀ f ∈ fs, Readable room f.2
  | [] => by simp [ReadableFields]
  | (_, v) :: fs => by rw [ReadableFields, readableFields_iff, List.forall_mem_cons]

mutual

/-- A value that a text can hold: no numeral and no nesting beyond what is read, and no object with a name twice. -/
def Fits (room : Nat) : Value → Prop
  | .null | .bool _ | .float _ | .text _ => True
  | .int n => (Text.ofNat n.natAbs).length ≤ numeralLimit
  | .list vs => 0 < room ∧ FitsItems (room - 1) vs
  | .object fs => 0 < room ∧ (fs.map (·.1)).Nodup ∧ FitsFields (room - 1) fs
  | .other _ _ _ _ => False

def FitsItems (room : Nat) : List Value → Prop
  | [] => True
  | v :: vs => Fits room v ∧ FitsItems room vs

def FitsFields (room : Nat) : List (Text × Value) → Prop
  | [] => True
  | (_, v) :: fs => Fits room v ∧ FitsFields room fs

end

theorem fitsItems_iff {room : Nat} : ∀ {vs : List Value}, FitsItems room vs ↔ ∀ v ∈ vs, Fits room v
  | [] => by simp [FitsItems]
  | v :: vs => by rw [FitsItems, fitsItems_iff, List.forall_mem_cons]

theorem fitsFields_iff {room : Nat} : ∀ {fs : List (Text × Value)}, FitsFields room fs ↔ ∀ f ∈ fs, Fits room f.2
  | [] => by simp [FitsFields]
  | (_, v) :: fs => by rw [FitsFields, fitsFields_iff, List.forall_mem_cons]

mutual

theorem Readable.fits : ∀ {v : Value} {room : Nat}, Readable room v → Fits room v
  | .null, _, _ | .bool _, _, _ | .text _, _, _ => trivial
  | .int _, _, h => h
  | .list _, _, h => ⟨h.1, ReadableItems.fits h.2⟩
  | .object _, _, h => ⟨h.1, h.2.1, ReadableFields.fits h.2.2⟩

theorem ReadableItems.fits : ∀ {vs : List Value} {room : Nat}, ReadableItems room vs → FitsItems room vs
  | [], _, _ => trivial
  | _ :: _, _, h => ⟨h.1.fits, ReadableItems.fits h.2⟩

theorem ReadableFields.fits : ∀ {fs : List (Text × Value)} {room : Nat}, ReadableFields room fs → FitsFields room fs
  | [], _, _ => trivial
  | _ :: _, _, h => ⟨h.1.fits, ReadableFields.fits h.2⟩

end

theorem putField_new {name : Text} (v : Value) : ∀ {fs : List (Text × Value)}, name ∉ fs.map (·.1) →
    Value.putField name v fs = fs ++ [(name, v)]
  | [], _ => rfl
  | (n, w) :: fs, h => by
    rw [List.map_cons, List.mem_cons, not_or] at h
    rw [Value.putField, if_neg (Ne.symm h.1), putField_new v h.2]
    rfl

theorem mergeFields_of_nodup {fs : List (Text × Value)} (h : (fs.map (·.1)).Nodup) : Value.mergeFields fs = fs := by
  have hmerge : ∀ rest front : List (Text × Value), ((front ++ rest).map (·.1)).Nodup →
      rest.foldl (fun merged f => Value.putField f.1 f.2 merged) front = front ++ rest := by
    intro rest
    induction rest with
    | nil => intro front _; exact (List.append_nil front).symm
    | cons f rest ih =>
      intro front hnodup
      have hnew : f.1 ∉ front.map (·.1) := by
        rw [List.map_append, List.nodup_append] at hnodup
        exact fun hf => hnodup.2.2 _ hf f.1 (List.mem_cons_self ..) rfl
      rw [List.foldl_cons, putField_new f.2 hnew, ih _ (by rwa [List.append_assoc]), List.append_assoc]
      rfl
  exact hmerge fs [] h

/-- The first character of a value. -/
theorem write_head {room : Nat} {v : Value} (h : Fits room v) (level : Nat) :
    ∃ c t, write level v = c :: t ∧ isSpace c = false ∧ c ≠ ']' := by
  cases v with
  | null => exact ⟨'n', _, rfl, by decide⟩
  | bool b => cases b <;> exact ⟨_, _, rfl, by decide⟩
  | int n =>
    rw [write]
    exact (startsNumber_ofInt n).head
  | text t => exact ⟨'"', _, by rw [write]; rfl, by decide⟩
  | list vs => cases vs <;> exact ⟨'[', _, by rw [write]; rfl, by decide⟩
  | object fs => rcases fs with _ | ⟨⟨n, v⟩, fs⟩ <;> exact ⟨'\x7b', _, by rw [write]; rfl, by decide⟩
  | float x =>
    rw [write]
    exact writeFloat_head x
  | other k s w i => exact h.elim

theorem endsNumber_items (level : Nat) (vs : List Value) (rest : Text) :
    EndsNumber (writeItems level vs ++ (newline level ++ rest)) := by
  cases vs <;> exact endsNumber_cons (by decide) _

theorem endsNumber_fields (level : Nat) (fs : List (Text × Value)) (rest : Text) :
    EndsNumber (writeFields level fs ++ (newline level ++ rest)) := by
  rcases fs with _ | ⟨⟨n, v⟩, fs⟩ <;> exact endsNumber_cons (by decide) _

theorem skipSpace_write {room : Nat} {v : Value} (h : Fits room v) (level : Nat) (t : Text) :
    skipSpace (write level v ++ t) = write level v ++ t := by
  obtain ⟨c, u, hu, hspace, -⟩ := write_head h level
  rw [hu, List.cons_append, skipSpace_cons hspace]

theorem write_ne_bracket {room : Nat} {v : Value} (h : Fits room v) (level : Nat) (t u : Text) :
    write level v ++ t ≠ ']' :: u := by
  obtain ⟨c, w, hw, -, hc⟩ := write_head h level
  rw [hw, List.cons_append]
  exact fun he => hc (List.cons.inj he).1

section Steps

variable {room n : Nat} {name cs t t' u u' rest : Text} {v : Value}

theorem value_list (hroom : 0 < room) (hskip : skipSpace cs = t) (ht : ∀ u, t ≠ ']' :: u) :
    value room (n + 1) ('[' :: cs) = (elements (room - 1) n t).map fun (vs, rest) => (.list vs, rest) := by
  rw [value, if_neg (Nat.ne_of_gt hroom), hskip]
  split
  · exact absurd rfl (ht _)
  · rfl

theorem value_object (hroom : 0 < room) (hskip : skipSpace cs = t) (ht : ∀ u, t ≠ '\x7d' :: u) :
    value room (n + 1) ('\x7b' :: cs) =
      (members (room - 1) n t).map fun (fs, rest) => (.object (Value.mergeFields fs), rest) := by
  rw [value, if_neg (Nat.ne_of_gt hroom), hskip]
  split
  · exact absurd rfl (ht _)
  · rfl

theorem elements_last (hvalue : value room n t = .ok (v, u)) (hend : skipSpace u = ']' :: rest) :
    elements room (n + 1) t = .ok ([v], rest) := by
  simp only [elements, hvalue, hend]

theorem elements_more (hvalue : value room n t = .ok (v, u)) (hmore : skipSpace u = ',' :: rest) :
    elements room (n + 1) t = (elements room n (skipSpace rest)).map fun (vs, rest) => (v :: vs, rest) := by
  simp only [elements, hvalue, hmore]

theorem members_last (hname : string n t = .ok (name, t')) (hcolon : skipSpace t' = ':' :: u)
    (hvalue : value room n (skipSpace u) = .ok (v, u')) (hend : skipSpace u' = '\x7d' :: rest) :
    members room (n + 1) ('"' :: t) = .ok ([(name, v)], rest) := by
  simp only [members, hname, hcolon, hvalue, hend]

theorem members_more (hname : string n t = .ok (name, t')) (hcolon : skipSpace t' = ':' :: u)
    (hvalue : value room n (skipSpace u) = .ok (v, u')) (hmore : skipSpace u' = ',' :: rest) :
    members room (n + 1) ('"' :: t) = (members room n (skipSpace rest)).map fun (fs, rest) => ((name, v) :: fs, rest) := by
  simp only [members, hname, hcolon, hvalue, hmore]

end Steps

mutual

theorem value_write : ∀ (v : Value) {room n level : Nat} {rest : Text}, Fits room v → 2 * (write level v).length < n →
    EndsNumber rest → value room n (write level v ++ rest) = .ok (v, rest)
  | .null, _, n + 1, _, rest, _, _, _ => by
    rw [write]
    rfl
  | .bool true, _, n + 1, _, rest, _, _, _ | .bool false, _, n + 1, _, rest, _, _, _ => by
    rw [write]
    rfl
  | .int m, room, n + 1, level, rest, h, _, hrest => by
    rw [write]
    exact value_int h room n hrest
  | .text t, room, n + 1, level, rest, _, hn, _ => by
    have hlength := length_le_writeString t
    rw [write] at hn ⊢
    have hstring : string n ((Points.ofText t).flatMap writePoint ++ '"' :: rest) = .ok (t, rest) := string_write (by omega) rest
    rw [writeString_append, value, hstring]
    rfl
  | .list [], room, n + 1, level, rest, h, _, _ => by
    have hroom : 0 < room := h.1
    show value room (n + 1) ('[' :: ']' :: rest) = _
    rw [value, if_neg (Nat.ne_of_gt hroom)]
    rfl
  | .list (v :: vs), room, n + 1, level, rest, h, hn, _ => by
    have hlong : 2 * (write (level + 1) v ++ writeItems level vs).length + 1 < n := by
      rw [write] at hn
      simp [newline] at hn ⊢
      omega
    have hitems := elements_write (v :: vs) rest h.2 writeItems_cons hlong
    rw [write]
    simp only [List.append_assoc, List.cons_append, List.nil_append] at hitems ⊢
    rw [value_list h.1 ((skipSpace_newline _ _).trans (skipSpace_write h.2.1 _ _)) (write_ne_bracket h.2.1 _ _), hitems]
    rfl
  | .object [], room, n + 1, level, rest, h, _, _ => by
    have hroom : 0 < room := h.1
    show value room (n + 1) ('\x7b' :: '\x7d' :: rest) = _
    rw [value, if_neg (Nat.ne_of_gt hroom)]
    rfl
  | .object ((name, v) :: fs), room, n + 1, level, rest, h, hn, _ => by
    have hlong : 2 * (writeString name ++ (": " ++ (write (level + 1) v ++ writeFields level fs))).length + 1 < n := by
      rw [write] at hn
      simp [newline] at hn ⊢
      omega
    have hfields := members_write ((name, v) :: fs) rest h.2.2 writeFields_cons hlong
    rw [write]
    simp only [List.append_assoc, List.cons_append, List.nil_append, writeString_append] at hfields ⊢
    rw [value_object h.1 ((skipSpace_newline _ _).trans (skipSpace_cons (by decide) _)) (by rintro _ ⟨⟩), hfields]
    show Except.ok (Value.object (Value.mergeFields _), rest) = _
    rw [mergeFields_of_nodup h.2.1]
  | .float x, room, n + 1, level, rest, _, _, hrest => by
    rw [write]
    exact value_float x room n hrest
  | .other _ _ _ _, _, _, _, _, h, _, _ => h.elim

/-- The elements behind the first line end of a list. -/
theorem elements_write : ∀ (vs : List Value) {room n level : Nat} {body : Text} (rest : Text), FitsItems room vs →
    writeItems level vs = ',' :: (newline (level + 1) ++ body) → 2 * body.length + 1 < n →
    elements room n (body ++ (newline level ++ ']' :: rest)) = .ok (vs, rest)
  | [], _, _, _, _, _, _, hbody, _ => by cases hbody
  | v :: vs, room, n + 1, level, body, rest, h, hbody, hn => by
    obtain rfl : write (level + 1) v ++ writeItems level vs = body := by
      simpa [writeItems, List.append_assoc] using hbody
    have hlong : 2 * (write (level + 1) v).length < n := by
      simp at hn
      omega
    have hvalue := value_write v h.1 hlong (endsNumber_items level vs (']' :: rest))
    have ih : ∀ {body : Text}, writeItems level vs = ',' :: (newline (level + 1) ++ body) → 2 * body.length + 1 < n →
      elements room n (body ++ (newline level ++ ']' :: rest)) = .ok (vs, rest) := elements_write vs rest h.2
    rw [List.append_assoc]
    cases vs with
    | nil => exact elements_last hvalue (by rw [writeItems, List.nil_append, skipSpace_newline, skipSpace_cons (by decide)])
    | cons w vs =>
      rw [writeItems_cons] at hn
      have hitems := ih writeItems_cons (by simp at hn ⊢; omega)
      have hmore : skipSpace (writeItems level (w :: vs) ++ (newline level ++ ']' :: rest)) =
          ',' :: (newline (level + 1) ++ (write (level + 1) w ++ writeItems level vs ++ (newline level ++ ']' :: rest))) := by
        rw [writeItems_cons, List.cons_append, skipSpace_cons (by decide), List.append_assoc]
      rw [elements_more hvalue hmore, skipSpace_newline, List.append_assoc, skipSpace_write h.2.1, ← List.append_assoc, hitems]
      rfl

/-- The fields behind the first line end of an object. -/
theorem members_write : ∀ (fs : List (Text × Value)) {room n level : Nat} {body : Text} (rest : Text), FitsFields room fs →
    writeFields level fs = ',' :: (newline (level + 1) ++ body) → 2 * body.length + 1 < n →
    members room n (body ++ (newline level ++ '\x7d' :: rest)) = .ok (fs, rest)
  | [], _, _, _, _, _, _, hbody, _ => by cases hbody
  | (name, v) :: fs, room, n + 1, level, body, rest, h, hbody, hn => by
    obtain rfl : writeString name ++ (": " ++ (write (level + 1) v ++ writeFields level fs)) = body := by
      simpa [writeFields, List.append_assoc] using hbody
    have hlength := length_le_writeString name
    have hlong : 2 * (write (level + 1) v).length < n := by
      simp at hn
      omega
    have hvalue := value_write v h.1 hlong (endsNumber_fields level fs ('\x7d' :: rest))
    have ih : ∀ {body : Text}, writeFields level fs = ',' :: (newline (level + 1) ++ body) → 2 * body.length + 1 < n →
      members room n (body ++ (newline level ++ '\x7d' :: rest)) = .ok (fs, rest) := members_write fs rest h.2
    have hname : string n ((Points.ofText name).flatMap writePoint ++ '"' :: ':' :: ' ' :: (write (level + 1) v ++
        (writeFields level fs ++ (newline level ++ '\x7d' :: rest)))) = .ok (name, _) := string_write (by simp at hn; omega) _
    have hvalue' : value room n (skipSpace (' ' :: (write (level + 1) v ++
        (writeFields level fs ++ (newline level ++ '\x7d' :: rest))))) =
        .ok (v, writeFields level fs ++ (newline level ++ '\x7d' :: rest)) :=
      (congrArg (value room n) (skipSpace_write h.1 _ _)).trans hvalue
    have htext : writeString name ++ (": " ++ (write (level + 1) v ++ writeFields level fs)) ++ (newline level ++ '\x7d' :: rest) =
        '"' :: ((Points.ofText name).flatMap writePoint ++ '"' :: ':' :: ' ' :: (write (level + 1) v ++
          (writeFields level fs ++ (newline level ++ '\x7d' :: rest)))) := by
      simp [writeString, writePoints]
    rw [htext]
    cases fs with
    | nil =>
      refine members_last hname (skipSpace_cons (by decide) _) hvalue' ?_
      rw [writeFields, List.nil_append, skipSpace_newline, skipSpace_cons (by decide)]
    | cons f fs =>
      rw [writeFields_cons] at hn
      have hfields := ih writeFields_cons (by simp at hn ⊢; omega)
      have hmore : skipSpace (writeFields level (f :: fs) ++ (newline level ++ '\x7d' :: rest)) =
          ',' :: (newline (level + 1) ++ (writeString f.1 ++ (": " ++ (write (level + 1) f.2 ++ writeFields level fs)) ++
            (newline level ++ '\x7d' :: rest))) := by
        rw [writeFields_cons, List.cons_append, skipSpace_cons (by decide), List.append_assoc]
      rw [members_more hname (skipSpace_cons (by decide) _) hvalue' hmore, skipSpace_newline]
      rw [List.append_assoc, writeString_append] at hfields ⊢
      rw [skipSpace_cons (by decide), hfields]
      rfl

end

/-! ## Documents -/

theorem plain_newline (level : Nat) : ∀ c ∈ newline level, IsPlain c := by
  refine List.forall_mem_cons.2 ⟨.inl rfl, fun c hc => ?_⟩
  rw [List.eq_of_mem_replicate hc]
  exact .inr (by decide)

theorem plain_colon : ∀ c ∈ (": " : Text), IsPlain c := plain_of_all (by decide)

mutual

/-- A text that is written has printable characters and line feeds only. -/
theorem plain_write : ∀ (v : Value) {room : Nat} (level : Nat), Fits room v → ∀ c ∈ write level v, IsPlain c
  | .null, _, _, _ | .bool true, _, _, _ | .bool false, _, _, _ | .list [], _, _, _ | .object [], _, _, _ => by
    rw [write]
    exact plain_of_all (by decide)
  | .int n, _, _, _ => by
    rw [write]
    exact plain_ofInt n
  | .text t, _, _, _ => by
    rw [write]
    exact plain_writeString t
  | .list (v :: vs), _, level, h => by
    have hv := plain_write v (level + 1) h.2.1
    have hvs := plain_writeItems vs level h.2.2
    have hline := plain_newline level
    have hline' := plain_newline (level + 1)
    rw [write]
    simp only [List.forall_mem_append, List.forall_mem_cons]
    exact ⟨⟨⟨⟨⟨.inr (by decide), hline'⟩, hv⟩, hvs⟩, hline⟩, .inr (by decide), by simp⟩
  | .object ((name, v) :: fs), _, level, h => by
    have hv := plain_write v (level + 1) h.2.2.1
    have hfs := plain_writeFields fs level h.2.2.2
    have hname := plain_writeString name
    have hline := plain_newline level
    have hline' := plain_newline (level + 1)
    rw [write]
    simp only [List.forall_mem_append, List.forall_mem_cons]
    exact ⟨⟨⟨⟨⟨⟨⟨.inr (by decide), hline'⟩, hname⟩, plain_colon⟩, hv⟩, hfs⟩, hline⟩, .inr (by decide), by simp⟩
  | .float x, _, _, _ => by
    rw [write]
    exact plain_writeFloat x
  | .other _ _ _ _, _, _, h => h.elim

theorem plain_writeItems : ∀ (vs : List Value) {room : Nat} (level : Nat), FitsItems room vs →
    ∀ c ∈ writeItems level vs, IsPlain c
  | [], _, _, _ => by
    rw [writeItems]
    simp
  | v :: vs, _, level, h => by
    have hv := plain_write v (level + 1) h.1
    have hvs := plain_writeItems vs level h.2
    have hline := plain_newline (level + 1)
    rw [writeItems]
    simp only [List.forall_mem_append, List.forall_mem_cons]
    exact ⟨⟨⟨.inr (by decide), hline⟩, hv⟩, hvs⟩

theorem plain_writeFields : ∀ (fs : List (Text × Value)) {room : Nat} (level : Nat), FitsFields room fs →
    ∀ c ∈ writeFields level fs, IsPlain c
  | [], _, _, _ => by
    rw [writeFields]
    simp
  | (name, v) :: fs, _, level, h => by
    have hv := plain_write v (level + 1) h.1
    have hfs := plain_writeFields fs level h.2
    have hname := plain_writeString name
    have hline := plain_newline (level + 1)
    rw [writeFields]
    simp only [List.forall_mem_append, List.forall_mem_cons]
    exact ⟨⟨⟨⟨⟨.inr (by decide), hline⟩, hname⟩, plain_colon⟩, hv⟩, hfs⟩

end

/-- A value that fits is read back from the text that is written for it and white space. -/
theorem read_render_space {room : Nat} {v : Value} (h : Fits room v) {rest : Text} (hends : EndsNumber rest)
    (hspace : skipSpace rest = []) : readWithin room (render v ++ rest) = .ok v := by
  obtain ⟨c, t, ht, -, -⟩ := write_head h 0
  have hfirst : c ≠ '\uFEFF' := by
    rintro rfl
    have hplain := plain_write v 0 h '\uFEFF' (by rw [ht]; exact List.mem_cons_self ..)
    exact absurd hplain (by decide)
  have hskip : skipSpace (render v ++ rest) = render v ++ rest := skipSpace_write h 0 rest
  have hlong : 2 * (write 0 v).length < steps (render v ++ rest) := by
    simp only [steps, render, List.length_append]
    omega
  have hvalue : value room (steps (render v ++ rest)) (render v ++ rest) = .ok (v, rest) :=
    value_write v h hlong hends
  have hdocument : document room (render v ++ rest) = .ok v := by
    unfold document
    split
    · rename_i he
      rw [render, ht] at he
      exact absurd (List.cons.inj he).1 hfirst
    · rw [hskip, hvalue]
      simp [hspace]
  rw [readWithin, hdocument]

/-- A value that fits is read back from the text that is written for it. -/
theorem read_written {room : Nat} {v : Value} (h : Fits room v) : readWithin room (render v) = .ok v := by
  have hread := read_render_space h (show EndsNumber [] by rintro _ ⟨⟩) rfl
  rwa [List.append_nil] at hread

theorem read_render {room : Nat} {v : Value} (h : Readable room v) : readWithin room (render v) = .ok v :=
  read_written h.fits

end Json

/-! ## Bytes -/

namespace Utf8

theorem encode_ascii {c : Char} (h : c.toNat < 0x80) (t : Text) : encode (c :: t) = UInt8.ofNat c.toNat :: encode t := by
  have hc : c.val.toNat ≤ 0x7f := Nat.le_of_lt_succ h
  rw [encode, List.flatMap_cons, String.utf8EncodeChar, if_pos hc]
  rfl

theorem sequence_ascii {c : Char} (h : c.toNat < 0x80) (bytes : Bytes) : sequence (UInt8.ofNat c.toNat) bytes = (0, .ok c) := by
  have hnat : (UInt8.ofNat c.toNat).toNat = c.toNat := by
    rw [UInt8.toNat_ofNat']
    omega
  have hsmall : UInt8.ofNat c.toNat < 0x80 := by
    rw [UInt8.lt_iff_toNat_lt, hnat]
    exact h
  rw [sequence, following, if_pos hsmall]
  simp only [further, leadBits, if_pos hsmall, hnat, Except.map, Char.ofNat_toNat]

/-- A text in ASCII is read back from its bytes. -/
theorem strict_encode {t : Text} (h : ∀ c ∈ t, c.toNat < 0x80) : strict (encode t) = .ok t := by
  have hdecode : ∀ (t : Text) (position : Nat), (∀ c ∈ t, c.toNat < 0x80) → decodeStrict position 0 (encode t) = .ok t := by
    intro t
    induction t with
    | nil => exact fun _ _ => rfl
    | cons c t ih =>
      intro position h
      obtain ⟨hc, ht⟩ := List.forall_mem_cons.1 h
      rw [encode_ascii hc]
      simp only [decodeStrict, sequence_ascii hc, ih (position + 1) ht, Except.map]
  exact hdecode t 0 h

/-- A text in ASCII does not begin with the mark, so nothing of it is taken for one. -/
theorem strictUnmarked_encode {t : Text} (hne : t ≠ []) (h : ∀ c ∈ t, c.toNat < 0x80) : strictUnmarked (encode t) = .ok t := by
  obtain ⟨c, u, rfl⟩ := List.exists_cons_of_ne_nil hne
  have hfirst : UInt8.ofNat c.toNat ≠ 0xef := by
    have hc := h c (List.mem_cons_self ..)
    intro he
    have hnat : (UInt8.ofNat c.toNat).toNat = 0xef := by rw [he]; rfl
    rw [UInt8.toNat_ofNat'] at hnat
    omega
  have hstrict := strict_encode h
  rw [encode_ascii (h c (List.mem_cons_self ..))] at hstrict ⊢
  simp [strictUnmarked, mark, List.isPrefixOf?, hfirst, hfirst.symm, hstrict]

end Utf8

theorem Text.unifyLines_of_not_mem : ∀ {t : Text}, '\r' ∉ t → unifyLines t = t
  | [], _ => rfl
  | c :: t, h => by
    rw [List.mem_cons, not_or] at h
    rw [unifyLines, unifyLines_of_not_mem h.2]
    · rintro _ rfl
      exact absurd rfl h.1
    · rintro rfl
      exact absurd rfl h.1

namespace Json

/-- What is written for a value that fits is a file, whose text stays as it is when the file is opened. -/
theorem file_render {room : Nat} {v : Value} (h : Fits room v) :
    render v ≠ [] ∧ (∀ c ∈ render v, c.toNat < 0x80) ∧ (render v).unifyLines = render v := by
  have hplain := plain_write v 0 h
  obtain ⟨c, t, ht, -⟩ := write_head h 0
  have hreturn : '\r' ∉ render v := fun hr => absurd (hplain _ hr) (by decide)
  refine ⟨by simp [render, ht], fun c hc => ?_, Text.unifyLines_of_not_mem hreturn⟩
  rcases hplain c hc with rfl | ⟨-, hc⟩
  · decide
  · omega

/-- A value that fits is read back from the file that is written for it. -/
theorem readFile_render {room : Nat} {v : Value} (h : Fits room v) :
    Utf8.strict (Utf8.encode (render v)) = .ok (render v) ∧ readWithin room (render v).unifyLines = .ok v := by
  obtain ⟨-, hascii, hlines⟩ := file_render h
  exact ⟨Utf8.strict_encode hascii, by rw [hlines, read_written h]⟩

end Json

end ActionSweep
