/-
Numbers with a fraction in JSON text. The text of a double has a whole part, a fraction and an exponent part, and it is
read as a decimal number of the value that they have together. As the shortest decimal number of a double is nearest to
that double, every double is read back.
-/
import ActionSweep.Json.Writer
import ActionSweep.Proofs.Decimal.Reading
import ActionSweep.Proofs.Json.Numbers

namespace ActionSweep

namespace Json

/-! ## What digits stand for -/

theorem digitsValue_append (ds es : Text) : digitsValue (ds ++ es) = digitsValue ds * 10 ^ es.length + digitsValue es := by
  have hfold : ∀ (es : Text) (n : ℕ), es.foldl (fun n c => 10 * n + (c.toNat - '0'.toNat)) n =
      n * 10 ^ es.length + digitsValue es := by
    intro es
    induction es with
    | nil => intro n; simp [digitsValue]
    | cons c es ih =>
      intro n
      have hcons : digitsValue (c :: es) = _ := ih (10 * 0 + (c.toNat - '0'.toNat))
      rw [hcons, List.foldl_cons, ih, List.length_cons, pow_succ]
      ring
  rw [digitsValue, List.foldl_append, hfold]
  rfl

theorem digitsValue_zeros (k : ℕ) : digitsValue (List.replicate k '0') = 0 := by
  induction k with
  | zero => rfl
  | succ k ih => exact ih

/-- A numeral with zeros in front of it. -/
def padded (k n : ℕ) : Text := List.replicate k '0' ++ Text.ofNat n

theorem digitsValue_padded (k n : ℕ) : digitsValue (padded k n) = n := by
  rw [padded, digitsValue_append, digitsValue_zeros, digitsValue_ofNat, zero_mul, zero_add]

theorem isDigit_zeros {k : ℕ} {c : Char} (hc : c ∈ List.replicate k '0') : isDigit c = true := by
  rw [List.eq_of_mem_replicate hc]
  rfl

theorem isDigit_padded (k n : ℕ) : ∀ c ∈ padded k n, isDigit c = true :=
  List.forall_mem_append.2 ⟨fun _ hc => isDigit_zeros hc, fun _ hc => isDigit_ofNat hc⟩

theorem padded_ne_nil (k n : ℕ) : padded k n ≠ [] := by
  obtain ⟨c, u, hcons, -⟩ := ofNat_cons n
  simp [padded, hcons]

/-! ## The parts of a number -/

/-- A sign in front of a number. -/
def signText (negative : Bool) : Text := if negative then ['-'] else []

/-- Digits behind a point, if there are any. -/
def pointed (f : Text) : Text := if f = [] then [] else '.' :: f

/-- The exponent part of a number, if it has one, and the value of that. -/
inductive IsExponent : Text → ℤ → Prop
  | absent : IsExponent [] 0
  | signed {ds : Text} (negative : Bool) (hne : ds ≠ []) (hds : ∀ c ∈ ds, isDigit c = true) :
    IsExponent ('e' :: (if negative then '-' else '+') :: ds)
      (if negative then -(digitsValue ds : ℤ) else digitsValue ds)

namespace IsExponent

variable {part rest : Text} {e : ℤ}

/-- Neither digits nor a point go on in an exponent part or behind the number. -/
theorem head (h : IsExponent part e) (hrest : EndsNumber rest) : ∀ c ∈ (part ++ rest).head?, isDigit c = false ∧ c ≠ '.' := by
  cases h with
  | absent => exact fun c hc => ⟨(hrest c hc).1, (hrest c hc).2.1⟩
  | signed =>
    rintro _ ⟨⟩
    exact ⟨rfl, by decide⟩

theorem read (h : IsExponent part e) (hrest : EndsNumber rest) : exponent? (part ++ rest) = some (e, rest) ∨
    part = [] ∧ e = 0 ∧ exponent? (part ++ rest) = none := by
  cases h with
  | absent => exact .inr ⟨rfl, rfl, exponent?_of_ends hrest⟩
  | signed negative hne hds =>
    left
    have hstop : ∀ c ∈ rest.head?, isDigit c = false := fun c hc => (hrest c hc).1
    cases negative <;> simp [exponent?, Text.takeWhile_run hds hstop, Text.dropWhile_run hds hstop, hne]

theorem plain (h : IsExponent part e) : ∀ c ∈ part, IsPlain c := by
  cases h with
  | absent => exact fun c hc => absurd hc List.not_mem_nil
  | signed negative _ hds =>
    refine List.forall_mem_cons.2 ⟨.inr (by decide), List.forall_mem_cons.2 ⟨?_, fun c hc => plain_isDigit (hds c hc)⟩⟩
    cases negative <;> exact .inr (by decide)

end IsExponent

/-- The digits and the exponent part of a number that has a fraction or an exponent. -/
structure Figures where
  whole : Text
  fraction : Text
  part : Text
  exponent : ℤ
  whole_digits : ∀ c ∈ whole, isDigit c = true
  /-- No zero stands in front of other digits. -/
  whole_first : whole = ['0'] ∨ ∃ c u, whole = c :: u ∧ c ≠ '0'
  fraction_digits : ∀ c ∈ fraction, isDigit c = true
  isExponent : IsExponent part exponent
  not_whole : fraction ≠ [] ∨ part ≠ []

namespace Figures

variable (x : Figures) {rest : Text}

def text : Text := x.whole ++ (pointed x.fraction ++ x.part)

/-- All digits as one number. -/
def digits : ℕ := digitsValue (x.whole ++ x.fraction)

/-- The exponent of the last digit. -/
def place : ℤ := x.exponent - x.fraction.length

def value : ℚ := x.digits * 10 ^ x.place

theorem whole_cons : ∃ c u, x.whole = c :: u ∧ isDigit c = true := by
  rcases x.whole_first with h | ⟨c, u, h, -⟩
  · exact ⟨'0', [], h, rfl⟩
  · exact ⟨c, u, h, x.whole_digits c (by rw [h]; exact List.mem_cons_self ..)⟩

theorem startsNumber (negative : Bool) : StartsNumber (signText negative ++ x.text) := by
  obtain ⟨c, u, hwhole, hc⟩ := x.whole_cons
  rw [text, hwhole]
  cases negative
  · exact ⟨c, _, rfl, .inl hc⟩
  · exact ⟨'-', _, rfl, .inr ⟨rfl, c, _, rfl, hc⟩⟩

theorem wholeDigits_text {t : Text} (ht : ∀ c ∈ t.head?, isDigit c = false) : wholeDigits (x.whole ++ t) = (x.whole, t) := by
  rcases x.whole_first with h | ⟨c, u, h, hc⟩
  · rw [h]
    rfl
  · rw [wholeDigits, Text.takeWhile_run x.whole_digits ht, Text.dropWhile_run x.whole_digits ht]
    intro cs he
    rw [h] at he
    exact hc (List.cons.inj he).1

theorem fraction?_text {t : Text} (ht : ∀ c ∈ t.head?, isDigit c = false ∧ c ≠ '.') :
    (fraction? (pointed x.fraction ++ t)).getD ([], pointed x.fraction ++ t) = (x.fraction, t) := by
  unfold pointed
  split
  · rename_i hnil
    rw [hnil, List.nil_append]
    unfold fraction?
    split
    · exact absurd rfl (ht '.' rfl).2
    · rfl
  · rename_i hne
    rw [List.cons_append, fraction?, Text.takeWhile_run x.fraction_digits fun c hc => (ht c hc).1,
      Text.dropWhile_run x.fraction_digits fun c hc => (ht c hc).1, if_neg (by simpa using hne)]
    rfl

/-- The text is read as the decimal number of its digits and their place. -/
theorem number_text (hrest : EndsNumber rest) (negative : Bool) :
    number (signText negative ++ (x.text ++ rest)) = .ok (.float (floatOfDecimal negative x.digits x.place), rest) := by
  obtain ⟨c, u, hwhole, hc⟩ := x.whole_cons
  have hhead := x.isExponent.head hrest
  have hne : x.whole.isEmpty = false := by rw [hwhole]; rfl
  have htext : x.text ++ rest = x.whole ++ (pointed x.fraction ++ (x.part ++ rest)) := by
    rw [text, List.append_assoc, List.append_assoc]
  have hdigits : ∀ c ∈ (pointed x.fraction ++ (x.part ++ rest)).head?, isDigit c = false := by
    unfold pointed
    split
    · exact fun c hc => (hhead c hc).1
    · rintro _ ⟨⟩
      rfl
  rw [htext]
  unfold number
  split
  rename_i sign body hbody
  obtain ⟨rfl, rfl⟩ : negative = sign ∧ x.whole ++ (pointed x.fraction ++ (x.part ++ rest)) = body := by
    split at hbody
    · rename_i he
      cases hbody
      cases negative
      · rw [hwhole] at he
        exact absurd (List.cons.inj he).1 (isDigit_ne hc rfl)
      · exact ⟨rfl, (List.cons.inj he).2⟩
    · rename_i hminus
      cases hbody
      cases negative
      · exact ⟨rfl, rfl⟩
      · exact absurd rfl (hminus _)
  simp only [x.wholeDigits_text hdigits, hne, x.fraction?_text hhead, Bool.false_eq_true, if_false]
  rcases x.isExponent.read hrest with he | ⟨hpart, hzero, he⟩
  · rw [he]
    rfl
  · have hnonempty : x.fraction.isEmpty = false := by simpa using x.not_whole.resolve_right (not_not.2 hpart)
    rw [he]
    simp only [hnonempty, Bool.not_false, if_true, hpart, List.nil_append, place, hzero, zero_sub]
    rfl

theorem plain : ∀ c ∈ x.text, IsPlain c := by
  refine List.forall_mem_append.2 ⟨fun c hc => plain_isDigit (x.whole_digits c hc), List.forall_mem_append.2 ⟨?_, x.isExponent.plain⟩⟩
  unfold pointed
  split
  · exact fun c hc => absurd hc List.not_mem_nil
  · exact List.forall_mem_cons.2 ⟨.inr (by decide), fun c hc => plain_isDigit (x.fraction_digits c hc)⟩

end Figures

/-! ## Layouts -/

section

open NumberFormat (standard)

variable {d : Decimal}

/-- The exponent of the first digit. -/
def lead (d : Decimal) : ℤ := ((Text.ofNat d.digits).length : ℤ) + d.exponent - 1

/-- The exponent part of a number, with two digits at least. -/
def exponentText (e : ℤ) : Text :=
  'e' :: (if e < 0 then '-' else '+') :: padded (2 - (Text.ofNat e.natAbs).length) e.natAbs

theorem isExponent_exponentText (e : ℤ) : IsExponent (exponentText e) e := by
  have hsigned := IsExponent.signed (e < 0) (padded_ne_nil (2 - (Text.ofNat e.natAbs).length) e.natAbs) (isDigit_padded _ _)
  have hvalue : (if e < 0 then -(e.natAbs : ℤ) else e.natAbs) = e := by split <;> omega
  simp only [digitsValue_padded, decide_eq_true_eq, hvalue] at hsigned
  exact hsigned

theorem standard_write (d : Decimal) : standard.write d =
    if -4 ≤ lead d ∧ lead d < 16 then
      if lead d < 0 then ['0', '.'] ++ padded (-lead d - 1).toNat d.digits
      else
        (Text.ofNat d.digits).take ((lead d).toNat + 1) ++
          List.replicate ((lead d).toNat + 1 - ((Text.ofNat d.digits).take ((lead d).toNat + 1)).length) '0' ++ ['.'] ++
          (if ((Text.ofNat d.digits).drop ((lead d).toNat + 1)).isEmpty then ['0']
          else (Text.ofNat d.digits).drop ((lead d).toNat + 1))
    else
      (match Text.ofNat d.digits with
        | c :: c' :: cs => c :: '.' :: c' :: cs
        | cs => cs) ++ exponentText (lead d) := by
  have hexponent : exponentText (lead d) = ['e'] ++ (if lead d < 0 then "-" else "+" : String).toList ++
      List.replicate (2 - (Text.ofNat (lead d).natAbs).length) '0' ++ Text.ofNat (lead d).natAbs := by
    rw [exponentText]
    split <;> rfl
  rw [hexponent]
  simp only [padded, ← List.append_assoc]
  rfl

theorem write_small (hlow : -4 ≤ lead d) (hneg : lead d < 0) :
    standard.write d = ['0'] ++ (pointed (padded (-lead d - 1).toNat d.digits) ++ []) := by
  rw [standard_write, if_pos ⟨hlow, by omega⟩, if_pos hneg, pointed, if_neg (padded_ne_nil _ _), List.append_nil]
  rfl

theorem write_middle (hnonneg : 0 ≤ lead d) (hlow : lead d < 16) (hlong : (lead d).toNat + 1 < (Text.ofNat d.digits).length) :
    standard.write d = (Text.ofNat d.digits).take ((lead d).toNat + 1) ++
      (pointed ((Text.ofNat d.digits).drop ((lead d).toNat + 1)) ++ []) := by
  have hne : (Text.ofNat d.digits).drop ((lead d).toNat + 1) ≠ [] := by simpa using hlong
  rw [standard_write, if_pos ⟨by omega, hlow⟩, if_neg (not_lt.2 hnonneg), List.length_take, min_eq_left hlong.le,
    Nat.sub_self, if_neg (by simpa using hne), pointed, if_neg hne]
  simp

theorem write_whole (hnonneg : 0 ≤ lead d) (hlow : lead d < 16) (hshort : (Text.ofNat d.digits).length ≤ (lead d).toNat + 1) :
    standard.write d = (Text.ofNat d.digits ++ List.replicate ((lead d).toNat + 1 - (Text.ofNat d.digits).length) '0') ++
      (pointed ['0'] ++ []) := by
  rw [standard_write, if_pos ⟨by omega, hlow⟩, if_neg (not_lt.2 hnonneg), List.take_of_length_le hshort,
    List.drop_of_length_le hshort, if_pos List.isEmpty_nil]
  simp [pointed]

theorem write_large (h : lead d < -4 ∨ 16 ≤ lead d) {c : Char} {cs : Text} (hds : Text.ofNat d.digits = c :: cs) :
    standard.write d = [c] ++ (pointed cs ++ exponentText (lead d)) := by
  rw [standard_write, if_neg (by omega), hds]
  cases cs <;> simp [pointed]

/-- A small number is zeros and its digits behind a point. -/
theorem figures_small (hlow : -4 ≤ lead d) (hneg : lead d < 0) :
    ∃ x : Figures, x.text = standard.write d ∧ x.value = d.value := by
  refine ⟨⟨['0'], padded (-lead d - 1).toNat d.digits, [], 0, by simp [isDigit], .inl rfl, isDigit_padded _ _, .absent,
    .inl (padded_ne_nil _ _)⟩, (write_small hlow hneg).symm, ?_⟩
  have hplace : (0 : ℤ) - (padded (-lead d - 1).toNat d.digits).length = d.exponent := by
    rw [padded, List.length_append, List.length_replicate]
    unfold lead at hneg ⊢
    omega
  rw [Figures.value, Figures.digits, Figures.place, hplace, digitsValue_append, digitsValue_padded, Decimal.value]
  simp [digitsValue]

/-- The digits of a number have a point among them. -/
theorem figures_middle (hd : d.digits ≠ 0) (hnonneg : 0 ≤ lead d) (hlow : lead d < 16)
    (hlong : (lead d).toNat + 1 < (Text.ofNat d.digits).length) :
    ∃ x : Figures, x.text = standard.write d ∧ x.value = d.value := by
  obtain ⟨c, cs, hds, hc⟩ := ofNat_head (Nat.pos_of_ne_zero hd)
  refine ⟨⟨(Text.ofNat d.digits).take ((lead d).toNat + 1), (Text.ofNat d.digits).drop ((lead d).toNat + 1), [], 0,
    fun c hc => isDigit_ofNat (List.mem_of_mem_take hc), .inr ⟨c, _, by rw [hds]; rfl, hc⟩,
    fun c hc => isDigit_ofNat (List.mem_of_mem_drop hc), .absent, .inl (by simpa using hlong)⟩,
    (write_middle hnonneg hlow hlong).symm, ?_⟩
  have hplace : (0 : ℤ) - ((Text.ofNat d.digits).drop ((lead d).toNat + 1)).length = d.exponent := by
    rw [List.length_drop]
    unfold lead at hlong hnonneg ⊢
    omega
  rw [Figures.value, Figures.digits, Figures.place, hplace, List.take_append_drop, digitsValue_ofNat, Decimal.value]

/-- The digits of a whole number are filled up with zeros. -/
theorem figures_whole (hd : d.digits ≠ 0) (hnonneg : 0 ≤ lead d) (hlow : lead d < 16)
    (hshort : (Text.ofNat d.digits).length ≤ (lead d).toNat + 1) :
    ∃ x : Figures, x.text = standard.write d ∧ x.value = d.value := by
  obtain ⟨c, cs, hds, hc⟩ := ofNat_head (Nat.pos_of_ne_zero hd)
  refine ⟨⟨Text.ofNat d.digits ++ List.replicate ((lead d).toNat + 1 - (Text.ofNat d.digits).length) '0', ['0'], [], 0,
    List.forall_mem_append.2 ⟨fun _ hc => isDigit_ofNat hc, fun _ hc => isDigit_zeros hc⟩, .inr ⟨c, _, by rw [hds]; rfl, hc⟩,
    by simp [isDigit], .absent, .inl (by simp)⟩, (write_whole hnonneg hlow hshort).symm, ?_⟩
  have hexponent : (((lead d).toNat + 1 - (Text.ofNat d.digits).length : ℕ) : ℤ) = d.exponent := by
    unfold lead at hshort hnonneg ⊢
    omega
  rw [Figures.value, Figures.digits, Figures.place, digitsValue_append, digitsValue_append, digitsValue_zeros, digitsValue_ofNat,
    List.length_replicate, Decimal.value, ← hexponent, zpow_natCast]
  push_cast
  simp [digitsValue]

/-- Large and very small numbers have an exponent part. -/
theorem figures_large (hd : d.digits ≠ 0) (h : lead d < -4 ∨ 16 ≤ lead d) :
    ∃ x : Figures, x.text = standard.write d ∧ x.value = d.value := by
  obtain ⟨c, cs, hds, hc⟩ := ofNat_head (Nat.pos_of_ne_zero hd)
  have hdigits : ∀ c ∈ Text.ofNat d.digits, isDigit c = true := fun _ hc => isDigit_ofNat hc
  rw [hds, List.forall_mem_cons] at hdigits
  refine ⟨⟨[c], cs, exponentText (lead d), lead d, List.forall_mem_singleton.2 hdigits.1, .inr ⟨c, [], rfl, hc⟩, hdigits.2,
    isExponent_exponentText _, .inr nofun⟩, (write_large h hds).symm, ?_⟩
  have hplace : lead d - cs.length = d.exponent := by
    rw [lead, hds, List.length_cons]
    push_cast
    ring
  rw [Figures.value, Figures.digits, Figures.place, hplace, List.singleton_append, ← hds, digitsValue_ofNat, Decimal.value]

/-- The text of a positive decimal number is the text of some figures of the same value. -/
theorem exists_figures (hd : d.digits ≠ 0) : ∃ x : Figures, x.text = standard.write d ∧ x.value = d.value := by
  by_cases hlarge : lead d < -4 ∨ 16 ≤ lead d
  · exact figures_large hd hlarge
  rcases lt_or_ge (lead d) 0 with hneg | hnonneg
  · exact figures_small (by omega) hneg
  rcases lt_or_ge ((lead d).toNat + 1) (Text.ofNat d.digits).length with hlong | hshort
  · exact figures_middle hd hnonneg (by omega) hlong
  · exact figures_whole hd hnonneg (by omega) hshort

/-! ## Doubles -/

/-- Zero with a fraction. -/
def Figures.zero : Figures where
  whole := ['0']
  fraction := ['0']
  part := []
  exponent := 0
  whole_digits := List.forall_mem_singleton.2 rfl
  whole_first := .inl rfl
  fraction_digits := List.forall_mem_singleton.2 rfl
  isExponent := .absent
  not_whole := .inl nofun

/-- The text of a double is a word, or a sign with figures that are read as the double. -/
theorem writeFloat_cases (x : Float) : x = 0.0 / 0.0 ∧ writeFloat x = "NaN" ∨
    x = 1.0 / 0.0 ∧ writeFloat x = "Infinity" ∨ x = -1.0 / 0.0 ∧ writeFloat x = "-Infinity" ∨
    ∃ (negative : Bool) (y : Figures), writeFloat x = signText negative ++ y.text ∧
      floatOfDecimal negative y.digits y.place = x := by
  have htext : writeFloat x = standard.writeDouble ("NaN", "Infinity") (.ofBits x.toBits.toNat) := rfl
  cases hx : Double.ofBits x.toBits.toNat with
  | notANumber => exact .inl ⟨Double.eq_notANumber hx, by rw [htext, hx]; rfl⟩
  | infinity negative =>
    have heq := Double.eq_infinity hx
    cases negative
    · exact .inr (.inl ⟨heq, by rw [htext, hx]; rfl⟩)
    · exact .inr (.inr (.inl ⟨heq, by rw [htext, hx]; rfl⟩))
  | zero negative =>
    refine .inr (.inr (.inr ⟨negative, .zero, ?_, ?_⟩))
    · rw [htext, hx]
      cases negative <;> rfl
    · rw [Double.eq_zero hx]
      cases negative <;> rfl
  | finite negative b =>
    obtain ⟨hb, rfl⟩ := Double.eq_finite hx
    obtain ⟨hdigits, hnears⟩ := Decimal.shortest_nears hb
    obtain ⟨y, hy, hvalue⟩ := exists_figures hdigits
    rw [← hvalue, Figures.value] at hnears
    refine .inr (.inr (.inr ⟨negative, y, ?_, Decimal.floatOfDecimal_nears hb hnears negative⟩))
    rw [htext, hx, hy]
    cases negative <;> rfl

/-- A double is read back from its text. -/
theorem value_float (x : Float) (room steps : ℕ) {rest : Text} (hrest : EndsNumber rest) :
    value room (steps + 1) (writeFloat x ++ rest) = .ok (.float x, rest) := by
  obtain ⟨rfl, htext⟩ | ⟨rfl, htext⟩ | ⟨rfl, htext⟩ | ⟨negative, y, htext, hread⟩ := writeFloat_cases x
  · rw [htext]
    rfl
  · rw [htext]
    rfl
  · rw [htext]
    rfl
  · rw [htext, value_number ((y.startsNumber negative).append rest), List.append_assoc, y.number_text hrest, hread]

theorem writeFloat_head (x : Float) : ∃ c t, writeFloat x = c :: t ∧ isSpace c = false ∧ c ≠ ']' := by
  obtain ⟨-, htext⟩ | ⟨-, htext⟩ | ⟨-, htext⟩ | ⟨negative, y, htext, -⟩ := writeFloat_cases x
  · exact ⟨'N', _, htext, by decide⟩
  · exact ⟨'I', _, htext, by decide⟩
  · exact ⟨'-', _, htext, by decide⟩
  · rw [htext]
    exact (y.startsNumber negative).head

theorem plain_writeFloat (x : Float) : ∀ c ∈ writeFloat x, IsPlain c := by
  obtain ⟨-, htext⟩ | ⟨-, htext⟩ | ⟨-, htext⟩ | ⟨negative, y, htext, -⟩ := writeFloat_cases x
  · exact plain_of_all (by rw [htext]; decide)
  · exact plain_of_all (by rw [htext]; decide)
  · exact plain_of_all (by rw [htext]; decide)
  · rw [htext]
    refine List.forall_mem_append.2 ⟨?_, y.plain⟩
    cases negative <;> exact plain_of_all (by decide)

end

end Json

end ActionSweep
