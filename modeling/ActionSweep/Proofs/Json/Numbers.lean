/-
Numerals in JSON text. What begins with a digit or a minus sign is read as a number, and an integer is read back from
its numeral if that is not too long.
-/
import ActionSweep.Proofs.Json.Strings
import ActionSweep.Proofs.Texts

namespace ActionSweep

namespace Json

/-! ## Integers -/

theorem isDigit_of_isDigit {c : Char} (h : c.isDigit = true) : isDigit c = true := by
  simpa [Char.isDigit, isDigit, Char.le_def] using h

theorem isDigit_ofNat {n : Nat} {c : Char} (h : c ∈ Text.ofNat n) : isDigit c = true :=
  isDigit_of_isDigit (Nat.isDigit_of_mem_toDigits (by decide) (by decide) h)

theorem digitsValue_ofNat (n : Nat) : digitsValue (Text.ofNat n) = n :=
  Nat.ofDigitChars_toDigits (by decide) (by decide)

/-- Only the numeral of zero begins with a zero. -/
theorem ofNat_head {n : Nat} (hn : 0 < n) : ∃ c t, Text.ofNat n = c :: t ∧ c ≠ '0' := by
  unfold Text.ofNat
  induction n using Nat.strongRecOn with
  | ind n ih =>
    rw [Nat.toDigits_eq_if (by decide)]
    split
    · rename_i h
      have hdigit : ∀ d < 10, 0 < d → Nat.digitChar d ≠ '0' := by decide
      exact ⟨_, [], rfl, hdigit n h hn⟩
    · rename_i h
      obtain ⟨c, t, ht, hc⟩ := ih (n / 10) (by omega) (by omega)
      exact ⟨c, t ++ [Nat.digitChar (n % 10)], by rw [ht, List.cons_append], hc⟩

/-- A text that does not go on with a numeral that stands in front of it. -/
def EndsNumber (t : Text) : Prop := ∀ c ∈ t.head?, isDigit c = false ∧ c ≠ '.' ∧ c ≠ 'e' ∧ c ≠ 'E'

theorem wholeDigits_ofNat (n : Nat) {rest : Text} (hrest : EndsNumber rest) :
    wholeDigits (Text.ofNat n ++ rest) = (Text.ofNat n, rest) := by
  have hstop : ∀ c ∈ rest.head?, isDigit c = false := fun c hc => (hrest c hc).1
  rcases Nat.eq_zero_or_pos n with rfl | hn
  · rfl
  · obtain ⟨c, t, ht, hc⟩ := ofNat_head hn
    have hdigits : ∀ d ∈ Text.ofNat n, isDigit d = true := fun d hd => isDigit_ofNat hd
    unfold wholeDigits
    split
    · rename_i he
      rw [ht, List.cons_append] at he
      exact absurd (List.cons.inj he).1 hc
    · rw [Text.takeWhile_run hdigits hstop, Text.dropWhile_run hdigits hstop]

theorem fraction?_of_ends {rest : Text} (hrest : EndsNumber rest) : fraction? rest = none := by
  unfold fraction?
  split
  · exact absurd rfl (hrest '.' rfl).2.1
  · rfl

theorem exponent?_of_ends {rest : Text} (hrest : EndsNumber rest) : exponent? rest = none := by
  cases rest with
  | nil => rfl
  | cons c rest =>
    obtain ⟨-, -, he, hE⟩ := hrest c rfl
    simp [exponent?, he, hE]

theorem ofNat_cons (n : Nat) : ∃ c t, Text.ofNat n = c :: t ∧ isDigit c = true := by
  obtain ⟨c, t, ht⟩ := List.exists_cons_of_ne_nil (Nat.toDigits_ne_nil : Nat.toDigits 10 n ≠ [])
  refine ⟨c, t, ht, isDigit_ofNat (n := n) ?_⟩
  rw [show Text.ofNat n = c :: t from ht]
  exact List.mem_cons_self ..

theorem ofNat_nonempty (n : Nat) : (Text.ofNat n).isEmpty = false := by
  obtain ⟨c, t, ht, -⟩ := ofNat_cons n
  rw [ht]
  rfl

/-- An integer whose numeral is not too long is read back. -/
theorem number_write {n : Int} (hlong : (Text.ofNat n.natAbs).length ≤ numeralLimit) {rest : Text} (hrest : EndsNumber rest) :
    number (Text.ofInt n ++ rest) = .ok (.int n, rest) := by
  cases n with
  | ofNat m =>
    obtain ⟨c, t, ht, hc⟩ := ofNat_cons m
    have hminus : ∀ cs, Text.ofNat m ++ rest ≠ '-' :: cs := by
      intro cs he
      rw [ht, List.cons_append] at he
      rw [(List.cons.inj he).1] at hc
      cases hc
    show number (Text.ofNat m ++ rest) = _
    unfold number
    split
    rename_i negative body hbody
    split at hbody
    · exact absurd ‹_› (hminus _)
    · cases hbody
      simp only [wholeDigits_ofNat m hrest, ofNat_nonempty, fraction?_of_ends hrest, Option.getD_none,
        exponent?_of_ends hrest, digitsValue_ofNat, List.isEmpty_nil, Bool.not_true, Bool.false_eq_true, if_false]
      rw [if_neg (show ¬ (Text.ofNat m).length > numeralLimit from Nat.not_lt.2 hlong)]
      rfl
  | negSucc m =>
    show number ('-' :: (Text.ofNat (m + 1) ++ rest)) = _
    simp only [number, wholeDigits_ofNat (m + 1) hrest, ofNat_nonempty, fraction?_of_ends hrest, Option.getD_none,
      exponent?_of_ends hrest, digitsValue_ofNat, List.isEmpty_nil, Bool.not_true, Bool.false_eq_true, if_false, if_true]
    rw [if_neg (show ¬ (Text.ofNat (m + 1)).length > numeralLimit from Nat.not_lt.2 hlong)]
    rfl

theorem isDigit_ne {c d : Char} (h : isDigit c = true) (hd : isDigit d = false) : c ≠ d := by
  rintro rfl
  rw [h] at hd
  cases hd

/-! ## Values -/

/-- A text that begins with a digit, or with a minus sign and a digit. -/
def StartsNumber (t : Text) : Prop :=
  ∃ c u, t = c :: u ∧ (isDigit c = true ∨ c = '-' ∧ ∃ d v, u = d :: v ∧ isDigit d = true)

theorem StartsNumber.append {t : Text} (h : StartsNumber t) (rest : Text) : StartsNumber (t ++ rest) := by
  obtain ⟨c, u, rfl, hc⟩ := h
  refine ⟨c, u ++ rest, rfl, hc.imp_right ?_⟩
  rintro ⟨hminus, d, v, rfl, hd⟩
  exact ⟨hminus, d, v ++ rest, rfl, hd⟩

theorem startsNumber_ofInt (n : Int) : StartsNumber (Text.ofInt n) := by
  cases n with
  | ofNat m =>
    obtain ⟨c, t, ht, hc⟩ := ofNat_cons m
    exact ⟨c, t, ht, .inl hc⟩
  | negSucc m =>
    obtain ⟨d, u, hu, hd⟩ := ofNat_cons (m + 1)
    exact ⟨'-', _, rfl, .inr ⟨rfl, d, u, hu, hd⟩⟩

/-- A number is none of the words. -/
theorem word?_number {t : Text} (h : StartsNumber t) : word? t = none := by
  obtain ⟨c, u, rfl, hc⟩ := h
  rcases hc with hc | ⟨rfl, d, v, rfl, hd⟩
  · have hne := fun d => isDigit_ne (d := d) hc
    simp [word?, wordValues, (hne 'n' rfl).symm, (hne 't' rfl).symm, (hne 'f' rfl).symm, (hne 'N' rfl).symm,
      (hne 'I' rfl).symm, (hne '-' rfl).symm, List.isPrefixOf?]
  · have hne := isDigit_ne (d := 'I') hd rfl
    simp [word?, wordValues, hne.symm, List.isPrefixOf?]

/-- A value that begins like a number is read as one. -/
theorem value_number {t : Text} (h : StartsNumber t) (room steps : Nat) : value room (steps + 1) t = number t := by
  have hword := word?_number h
  obtain ⟨c, u, rfl, hc⟩ := h
  have hne : c ≠ '"' ∧ c ≠ '[' ∧ c ≠ '\x7b' := by
    rcases hc with hc | ⟨rfl, -⟩
    · exact ⟨isDigit_ne hc rfl, isDigit_ne hc rfl, isDigit_ne hc rfl⟩
    · decide
  unfold value
  split
  · cases ‹_ = ([] : Text)›
  · exact absurd (List.cons.inj ‹_›).1 hne.1
  · exact absurd (List.cons.inj ‹_›).1 hne.2.1
  · exact absurd (List.cons.inj ‹_›).1 hne.2.2
  · rw [hword]

/-- The first character of a number is neither white space nor a bracket. -/
theorem StartsNumber.head {t : Text} (h : StartsNumber t) : ∃ c u, t = c :: u ∧ isSpace c = false ∧ c ≠ ']' := by
  obtain ⟨c, u, rfl, hc⟩ := h
  refine ⟨c, u, rfl, ?_⟩
  rcases hc with hc | ⟨rfl, -⟩
  · have hne := fun d => isDigit_ne (d := d) hc
    simp [isSpace, hne ' ' rfl, hne '\t' rfl, hne '\n' rfl, hne '\r' rfl, hne ']' rfl]
  · decide

theorem value_int {n : Int} (hlong : (Text.ofNat n.natAbs).length ≤ numeralLimit) (room steps : Nat) {rest : Text}
    (hrest : EndsNumber rest) : value room (steps + 1) (Text.ofInt n ++ rest) = .ok (.int n, rest) :=
  (value_number ((startsNumber_ofInt n).append rest) room steps).trans (number_write hlong hrest)

theorem endsNumber_cons {c : Char} (h : isDigit c = false ∧ c ≠ '.' ∧ c ≠ 'e' ∧ c ≠ 'E') (t : Text) : EndsNumber (c :: t) := by
  rintro _ ⟨⟩
  exact h

theorem plain_isDigit {c : Char} (h : isDigit c = true) : IsPlain c := by
  simp only [isDigit, Bool.and_eq_true, decide_eq_true_eq, Char.le_def, UInt32.le_iff_toNat_le] at h
  exact .inr ⟨Nat.le_trans (by decide) h.1, Nat.lt_of_le_of_lt h.2 (by decide)⟩

theorem plain_ofInt (n : Int) : ∀ c ∈ Text.ofInt n, IsPlain c := by
  cases n with
  | ofNat m => exact fun c hc => plain_isDigit (isDigit_ofNat hc)
  | negSucc m => exact List.forall_mem_cons.2 ⟨.inr (by decide), fun c hc => plain_isDigit (isDigit_ofNat hc)⟩

end Json

end ActionSweep
