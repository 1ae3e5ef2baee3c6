/-
Strings in JSON text. What is written for a code point is one of its escapes or the character itself, in printable
ASCII, and it is read back as that code point, unless it is half of a pair and the other one follows. So a string is read
back with its halves joined: as it was written exactly if there is no pair of halves in it, and a text always.
-/
import ActionSweep.Json.Writer
import ActionSweep.Proofs.Json.Points
import Mathlib.Data.Nat.Digits.Defs

namespace ActionSweep

/-! ## Hexadecimal digits -/

namespace Text

theorem hex_succ {width : Nat} (hwidth : 0 < width) (n : Nat) : hex (width + 1) n = hex width (n / 16) ++ [Nat.digitChar (n % 16)] := by
  unfold hex
  rw [Nat.toDigits_eq_if (by decide : 1 < 16) (n := n)]
  split
  · rename_i h
    rw [Nat.div_eq_of_lt h, Nat.mod_eq_of_lt h, Nat.toDigits_zero]
    simp only [List.length_singleton, Nat.add_sub_cancel]
    rw [← List.replicate_succ', Nat.sub_add_cancel hwidth]
  · simp only [List.length_append, List.length_singleton, Nat.add_sub_add_right, List.append_assoc]

theorem hex_one {n : Nat} (h : n < 16) : hex 1 n = [Nat.digitChar n] := by
  unfold hex
  rw [Nat.toDigits_of_lt_base h]
  rfl

theorem hex_four {n : Nat} (h : n < 0x10000) : hex 4 n =
    [Nat.digitChar (n / 4096), Nat.digitChar (n / 256 % 16), Nat.digitChar (n / 16 % 16), Nat.digitChar (n % 16)] := by
  rw [hex_succ (by decide), hex_succ (by decide), hex_succ (by decide), hex_one (by omega)]
  simp only [List.cons_append, List.nil_append, Nat.div_div_eq_div_mul, Nat.reduceMul]

end Text

namespace Json

theorem hexDigit?_digitChar : ∀ d < 16, hexDigit? (Nat.digitChar d) = some d := by decide

/-- A unit is read back from its digits, if there is text behind them. -/
theorem unitEscape?_hex {n : Nat} (h : n < 0x10000) {rest : Text} (hrest : rest ≠ []) :
    unitEscape? (Text.hex 4 n ++ rest) = some (n, rest) := by
  have hdigits := hexDigit?_digitChar
  rw [Text.hex_four h]
  unfold unitEscape?
  rw [if_neg (by
    have := List.length_pos_iff.2 hrest
    simp
    omega)]
  have hunit : unit? [Nat.digitChar (n / 4096), Nat.digitChar (n / 256 % 16), Nat.digitChar (n / 16 % 16),
      Nat.digitChar (n % 16)] = some n := by
    unfold unit?
    simp only [hdigits (n / 4096) (by omega), hdigits (n / 256 % 16) (by omega), hdigits (n / 16 % 16) (by omega),
      hdigits (n % 16) (by omega), Option.bind_eq_bind, Option.bind_some, Option.pure_def, Option.some.injEq]
    omega
  show (unit? [_, _, _, _]).map (fun n => (n, rest)) = _
  rw [hunit]
  rfl

/-! ## Code points -/

open Points (isHigh isLow pair halves isHigh_iff isLow_iff)

theorem shortEscape?_escapeOf? {c e : Char} (h : escapeOf? c = some e) : shortEscape? e = some c ∧ e ≠ 'u' := by
  unfold escapeOf? at h
  split at h <;> cases h <;> decide

/-- A character with an escape of two characters is the one at its code point. -/
theorem toNat_of_escapeOf? {n : Nat} {e : Char} (h : escapeOf? (Char.ofNat n) = some e) : (Char.ofNat n).toNat = n := by
  by_cases hn : n.isValidChar
  · unfold Char.ofNat
    rw [dif_pos hn]
    rfl
  · unfold Char.ofNat at h
    rw [dif_neg hn] at h
    cases h

theorem toNat_ofNat {n : Nat} (h : n < 0x7f) : (Char.ofNat n).toNat = n := by
  have hn : n.isValidChar := .inl (by omega)
  unfold Char.ofNat
  rw [dif_pos hn]
  rfl

/-- The three forms in which a code point is written. -/
theorem writePoint_cases (n : Nat) :
    (∃ c e, c.toNat = n ∧ escapeOf? c = some e ∧ writePoint n = ['\\', e]) ∨
    (∃ c, c.toNat = n ∧ c ≠ '\\' ∧ c ≠ '"' ∧ 0x20 ≤ n ∧ n < 0x7f ∧ writePoint n = [c]) ∨
    (n < 0x10000 ∧ writePoint n = unitEscape n) ∨
    (0x10000 ≤ n ∧ writePoint n = unitEscape (halves n).1 ++ unitEscape (halves n).2) := by
  unfold writePoint
  cases he : escapeOf? (Char.ofNat n) with
  | some e => exact .inl ⟨_, e, toNat_of_escapeOf? he, he, rfl⟩
  | none =>
    dsimp only
    split
    · rename_i hplain
      refine .inr (.inl ⟨_, toNat_ofNat hplain.2, ?_, ?_, hplain.1, hplain.2, rfl⟩)
      · intro hc
        rw [hc] at he
        cases he
      · intro hc
        rw [hc] at he
        cases he
    · split
      · rename_i hsmall
        exact .inr (.inr (.inl ⟨hsmall, rfl⟩))
      · rename_i hsmall
        exact .inr (.inr (.inr ⟨Nat.le_of_not_lt hsmall, rfl⟩))

theorem stringPoint_plain {c : Char} (hescape : c ≠ '\\') (hcontrol : 0x20 ≤ c.toNat) (rest : Text) :
    stringPoint (c :: rest) = .ok (c.toNat, rest) := by
  unfold stringPoint
  split
  · rename_i he
    cases he
  · rename_i he
    cases he
    exact absurd rfl hescape
  · rename_i he
    cases he
    exact absurd rfl hescape
  · rename_i he
    cases he
    exact absurd rfl hescape
  · rename_i he
    cases he
    rw [if_neg (Nat.not_lt.2 hcontrol)]

theorem stringPoint_short {c e : Char} (h : shortEscape? e = some c) (hu : e ≠ 'u') (rest : Text) :
    stringPoint ('\\' :: e :: rest) = .ok (c.toNat, rest) := by
  unfold stringPoint
  split
  · rename_i he
    cases he
  · rename_i he
    cases he
    exact absurd rfl hu
  · rename_i he
    cases he
  · rename_i he
    cases he
    rw [h]
  · rename_i hno he
    cases he
    exact (hno e rest rfl rfl).elim

/-- A text that does not begin with the escape of a second half. -/
def NoLow (t : Text) : Prop :=
  ∀ ds, t = '\\' :: 'u' :: ds → ∃ n rest, unitEscape? ds = some (n, rest) ∧ isLow n = false

/-- An escape stands for its unit, unless it is the first half of a pair and the second one follows. -/
theorem stringPoint_unit {n : Nat} (hn : n < 0x10000) {rest : Text} (hrest : rest ≠ [])
    (halone : isHigh n = true → NoLow rest) : stringPoint (unitEscape n ++ rest) = .ok (n, rest) := by
  have hunit : unitEscape? (Text.hex 4 n ++ rest) = some (n, rest) := unitEscape?_hex hn hrest
  show stringPoint ('\\' :: 'u' :: (Text.hex 4 n ++ rest)) = _
  simp only [stringPoint, hunit]
  split
  · rename_i ds
    split
    · rename_i hhigh
      obtain ⟨m, after, hm, hlow⟩ := halone hhigh.1 ds rfl
      simp only [hm, hlow, Bool.false_eq_true, if_false]
    · rfl
  · rfl

/-- Two halves of a pair stand for its code point. -/
theorem stringPoint_pair {high low : Nat} (hhigh : isHigh high = true) (hlow : isLow low = true) {rest : Text}
    (hrest : rest ≠ []) : stringPoint (unitEscape high ++ (unitEscape low ++ rest)) = .ok (pair high low, rest) := by
  have hhigh' := isHigh_iff.1 hhigh
  have hlow' := isLow_iff.1 hlow
  have hfirst : unitEscape? (Text.hex 4 high ++ '\\' :: 'u' :: (Text.hex 4 low ++ rest)) = some (high, _) :=
    unitEscape?_hex (by omega) (List.cons_ne_nil _ _)
  have hsecond : unitEscape? (Text.hex 4 low ++ rest) = some (low, rest) := unitEscape?_hex (by omega) hrest
  have hlong : 4 < (Text.hex 4 low ++ rest).length := by
    have hpos := List.length_pos_iff.2 hrest
    rw [Text.hex_four (show low < 0x10000 by omega)]
    simp
    omega
  show stringPoint ('\\' :: 'u' :: (Text.hex 4 high ++ '\\' :: 'u' :: (Text.hex 4 low ++ rest))) = _
  simp only [stringPoint, hfirst, hsecond]
  rw [if_pos ⟨hhigh, hlong⟩, if_pos hlow]

/-- The halves of a code point make a pair, which is the code point. -/
theorem pair_halves {n : Nat} (h : 0x10000 ≤ n) (hn : n < 0x110000) :
    isHigh (halves n).1 = true ∧ isLow (halves n).2 = true ∧ pair (halves n).1 (halves n).2 = n := by
  rw [isHigh_iff, isLow_iff]
  unfold halves pair
  dsimp only
  omega

/-- What is written for a half of a pair is its escape. -/
theorem writePoint_half {n : Nat} (h : isHigh n = true ∨ isLow n = true) : writePoint n = unitEscape n := by
  rw [isHigh_iff, isLow_iff] at h
  rcases writePoint_cases n with ⟨c, e, hc, -, -⟩ | ⟨c, -, -, -, -, hn, -⟩ | ⟨-, hw⟩ | ⟨hn, -⟩
  · have := Points.toNat_lt c
    omega
  · omega
  · exact hw
  · omega

/-- What is written for a code point is read back as that code point, unless it begins a pair. -/
theorem stringPoint_write {n : Nat} (hn : n < 0x110000) {rest : Text} (hrest : rest ≠ [])
    (halone : isHigh n = true → NoLow rest) : stringPoint (writePoint n ++ rest) = .ok (n, rest) := by
  rcases writePoint_cases n with ⟨c, e, hc, he, hw⟩ | ⟨c, hc, hescape, -, hplain, -, hw⟩ | ⟨hsmall, hw⟩ | ⟨hlarge, hw⟩
  · obtain ⟨hshort, hu⟩ := shortEscape?_escapeOf? he
    rw [hw, ← hc]
    exact stringPoint_short hshort hu rest
  · rw [hw, ← hc]
    exact stringPoint_plain hescape (hc ▸ hplain) rest
  · rw [hw]
    exact stringPoint_unit hsmall hrest halone
  · obtain ⟨hhigh, hlow, hpair⟩ := pair_halves hlarge hn
    rw [hw, List.append_assoc, stringPoint_pair hhigh hlow hrest, hpair]

theorem noLow_unit {n : Nat} (hn : n < 0x10000) (hlow : isLow n = false) {rest : Text} (hrest : rest ≠ []) :
    NoLow (unitEscape n ++ rest) := by
  intro ds hds
  have hds : Text.hex 4 n ++ rest = ds := (List.cons.inj (List.cons.inj hds).2).2
  exact ⟨n, rest, hds ▸ unitEscape?_hex hn hrest, hlow⟩

/-- Only a second half is written as one. -/
theorem noLow_write {n : Nat} (hn : n < 0x110000) (hlow : isLow n = false) {rest : Text} (hrest : rest ≠ []) :
    NoLow (writePoint n ++ rest) := by
  rcases writePoint_cases n with ⟨c, e, -, he, hw⟩ | ⟨c, -, hescape, -, -, -, hw⟩ | ⟨hsmall, hw⟩ | ⟨hlarge, hw⟩
  · rw [hw]
    rintro ds hds
    exact absurd (List.cons.inj (List.cons.inj hds).2).1 (shortEscape?_escapeOf? he).2
  · rw [hw]
    rintro ds hds
    exact absurd (List.cons.inj hds).1 hescape
  · rw [hw]
    exact noLow_unit hsmall hlow hrest
  · -- the first of its halves comes first
    obtain ⟨hhigh, -, -⟩ := pair_halves hlarge hn
    rw [isHigh_iff] at hhigh
    rw [hw, List.append_assoc]
    refine noLow_unit (by omega) ?_ (List.cons_ne_nil _ _)
    rw [Bool.eq_false_iff, ne_eq, isLow_iff]
    omega

/-! ## Whole strings -/

/-- A code point that is written does not look like the end of the string. -/
theorem writePoint_head (n : Nat) : ∃ d t, writePoint n = d :: t ∧ d ≠ '"' := by
  rcases writePoint_cases n with ⟨c, e, -, -, hw⟩ | ⟨c, -, -, hquote, -, -, hw⟩ | ⟨-, hw⟩ | ⟨-, hw⟩
  · exact ⟨_, _, hw, by decide⟩
  · exact ⟨_, _, hw, hquote⟩
  · exact ⟨_, _, hw, by decide⟩
  · exact ⟨_, _, hw, by decide⟩

theorem stringBody_step {start t rest : Text} {n p : Nat} (hhead : ∃ d u, t = d :: u ∧ d ≠ '"')
    (hpoint : stringPoint t = .ok (p, rest)) :
    stringBody start (n + 1) t = (stringBody start n rest).map fun (ps, rest) => (p :: ps, rest) := by
  obtain ⟨d, u, rfl, hd⟩ := hhead
  rw [stringBody]
  · rw [hpoint]
    dsimp only
    cases stringBody start n rest <;> rfl
  · rintro v hv
    exact hd (List.cons.inj hv).1

/-- A string that was written is read back with its halves joined. -/
theorem stringBody_write (start rest : Text) : ∀ (ps : Points) (n : Nat), (∀ p ∈ ps, p < 0x110000) → ps.length < n →
    stringBody start n (ps.flatMap writePoint ++ '"' :: rest) = .ok (ps.joined, rest)
  | [], n + 1, _, _ => rfl
  | [p], n + 2, hps, _ => by
    have hpoint : stringPoint (writePoint p ++ '"' :: rest) = .ok (p, '"' :: rest) :=
      stringPoint_write (hps p (List.mem_cons_self ..)) (List.cons_ne_nil _ _) fun _ ds hds => by cases hds
    obtain ⟨d, u, hhead, hd⟩ := writePoint_head p
    rw [List.flatMap_cons, List.flatMap_nil, List.append_nil, stringBody_step ⟨d, _, by rw [hhead]; rfl, hd⟩ hpoint]
    rfl
  | p :: q :: ps, n + 1, hps, hn => by
    obtain ⟨hp, hqs⟩ := List.forall_mem_cons.1 hps
    obtain ⟨hq, hrest⟩ := List.forall_mem_cons.1 hqs
    obtain ⟨d, u, hhead, hd⟩ := writePoint_head p
    have hfirst : ∀ t, ∃ d u, writePoint p ++ t = d :: u ∧ d ≠ '"' := fun t => ⟨d, u ++ t, by rw [hhead]; rfl, hd⟩
    by_cases hpair : isHigh p = true ∧ isLow q = true
    · have ih := stringBody_write start rest ps n hrest (by simp only [List.length_cons] at hn; omega)
      have hpoint : stringPoint (writePoint p ++ (writePoint q ++ (ps.flatMap writePoint ++ '"' :: rest))) =
          .ok (pair p q, ps.flatMap writePoint ++ '"' :: rest) := by
        rw [writePoint_half (.inl hpair.1), writePoint_half (.inr hpair.2)]
        exact stringPoint_pair hpair.1 hpair.2 (by simp)
      rw [List.flatMap_cons, List.flatMap_cons, List.append_assoc, List.append_assoc, stringBody_step (hfirst _) hpoint, ih,
        Points.joined_pair hpair.1 hpair.2]
      rfl
    · have ih := stringBody_write start rest (q :: ps) n hqs (Nat.lt_of_succ_lt_succ hn)
      have halone : isHigh p = true → isLow q = false := fun hhigh => Bool.eq_false_iff.2 fun hlow => hpair ⟨hhigh, hlow⟩
      have hpoint : stringPoint (writePoint p ++ ((q :: ps).flatMap writePoint ++ '"' :: rest)) =
          .ok (p, (q :: ps).flatMap writePoint ++ '"' :: rest) := by
        refine stringPoint_write hp (by simp) fun hhigh => ?_
        rw [List.flatMap_cons, List.append_assoc]
        exact noLow_write hq (halone hhigh) (by simp)
      have hjoined : Points.joined (p :: q :: ps) = p :: Points.joined (q :: ps) := by
        refine Points.joined_cons ?_
        rintro m more ⟨⟩ hhigh
        exact halone hhigh
      rw [List.flatMap_cons, List.append_assoc, stringBody_step (hfirst _) hpoint, ih, hjoined]
      rfl

/-- A string that was written is read back with its halves joined, behind its opening quote. -/
theorem points_write {ps : Points} (hps : ∀ p ∈ ps, p < 0x110000) {n : Nat} (h : ps.length < n) (rest : Text) :
    points n (ps.flatMap writePoint ++ '"' :: rest) = .ok (ps.joined, rest) := stringBody_write _ rest ps n hps h

/-- A text that was written is read back, behind its opening quote. -/
theorem string_write {t : Text} {n : Nat} (h : t.length < n) (rest : Text) :
    string n ((Points.ofText t).flatMap writePoint ++ '"' :: rest) = .ok (t, rest) := by
  have hlength : (Points.ofText t).length < n := by rwa [Points.ofText, List.length_map]
  rw [string, points_write (fun _ => Points.lt_of_mem_ofText) hlength, Points.joined_ofText]
  exact congrArg (fun u => Except.ok (u, rest)) (Points.text_ofText t)

theorem writePoints_append (ps : Points) (rest : Text) :
    writePoints ps ++ rest = '"' :: (ps.flatMap writePoint ++ '"' :: rest) := by
  simp [writePoints]

/-- A string is read as it was written exactly if there is no pair of halves in it. -/
theorem points_read_iff {ps : Points} (hps : ∀ p ∈ ps, p < 0x110000) {n : Nat} (h : ps.length < n) (rest : Text) :
    points n (writePoints ps ++ rest).tail = .ok (ps, rest) ↔ ¬ ps.HoldsPair := by
  rw [writePoints_append, List.tail_cons, points_write hps h, ← Points.joined_eq_iff]
  simp only [Except.ok.injEq, Prod.mk.injEq, and_true]

theorem writeString_append (t rest : Text) :
    writeString t ++ rest = '"' :: ((Points.ofText t).flatMap writePoint ++ '"' :: rest) := writePoints_append _ rest

theorem length_le_writeString (t : Text) : t.length + 2 ≤ (writeString t).length := by
  have hbody : ∀ ps : Points, ps.length ≤ (ps.flatMap writePoint).length := by
    intro ps
    induction ps with
    | nil => exact Nat.le_refl 0
    | cons p ps ih =>
      obtain ⟨d, u, hhead, -⟩ := writePoint_head p
      rw [List.flatMap_cons, hhead, List.length_append, List.length_cons, List.length_cons]
      omega
  have ht := hbody (Points.ofText t)
  rw [Points.ofText, List.length_map] at ht
  simp only [writeString, writePoints, Points.ofText, List.length_append, List.length_cons, List.length_nil]
  omega

/-! ## Printable characters -/

/-- The characters of a JSON text that is written: printable ASCII, and line feeds. -/
def IsPlain (c : Char) : Prop := c = '\n' ∨ 0x20 ≤ c.toNat ∧ c.toNat < 0x7f

instance (c : Char) : Decidable (IsPlain c) := inferInstanceAs (Decidable (_ ∨ _ ∧ _))

/-- The characters of a text are looked at one by one. -/
theorem plain_of_all {t : Text} (h : t.all (decide <| IsPlain ·) = true) : ∀ c ∈ t, IsPlain c := by
  simpa using h

theorem plain_digitChar : ∀ d < 16, IsPlain (Nat.digitChar d) := by decide

theorem plain_unitEscape {n : Nat} (h : n < 0x10000) : ∀ c ∈ unitEscape n, IsPlain c := by
  unfold unitEscape
  rw [Text.hex_four h]
  simp only [List.forall_mem_cons]
  exact ⟨.inr (by decide), .inr (by decide), plain_digitChar _ (by omega), plain_digitChar _ (by omega),
    plain_digitChar _ (by omega), plain_digitChar _ (by omega), by simp⟩

theorem plain_writePoint {n : Nat} (hn : n < 0x110000) : ∀ d ∈ writePoint n, IsPlain d := by
  rcases writePoint_cases n with ⟨c, e, -, he, hw⟩ | ⟨c, rfl, -, -, hlower, hupper, hw⟩ | ⟨hsmall, hw⟩ | ⟨hlarge, hw⟩
  · have hplain : IsPlain e := by
      unfold escapeOf? at he
      split at he <;> cases he <;> decide
    rw [hw]
    simp only [List.forall_mem_cons]
    exact ⟨.inr (by decide), hplain, by simp⟩
  · rw [hw]
    simp only [List.forall_mem_cons]
    exact ⟨.inr ⟨hlower, hupper⟩, by simp⟩
  · rw [hw]
    exact plain_unitEscape hsmall
  · obtain ⟨hhigh, hlow, -⟩ := pair_halves hlarge hn
    rw [isHigh_iff] at hhigh
    rw [isLow_iff] at hlow
    rw [hw]
    simp only [List.mem_append]
    rintro d (hd | hd)
    · exact plain_unitEscape (by omega) d hd
    · exact plain_unitEscape (by omega) d hd

theorem plain_writeString (t : Text) : ∀ c ∈ writeString t, IsPlain c := by
  unfold writeString writePoints
  simp only [List.forall_mem_append, List.forall_mem_cons, List.mem_flatMap]
  refine ⟨⟨.inr (by decide), ?_⟩, .inr (by decide), by simp⟩
  rintro c ⟨p, hp, hc⟩
  exact plain_writePoint (Points.lt_of_mem_ofText hp) c hc

end Json

end ActionSweep
