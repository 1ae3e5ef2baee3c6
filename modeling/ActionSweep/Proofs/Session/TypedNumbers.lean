/-
Typed lists of numbers. The parts of such a list stand between commas and white space. A part that has nothing but decimal
digits, of any script, gives a position if the number it names is in the list, and every other part is passed over; only
a part that looks like a number without being one that can be read is a fault. A part looks like a number also if it has a
raised or a circled digit, or more digits than are read.
-/
import ActionSweep.Proofs.Outcome
import ActionSweep.Proofs.Texts
import ActionSweep.Text.Digit
import Mathlib.Data.Nat.Digits.Defs

namespace ActionSweep.Numeral

/-! ## Parts -/

/-- What may stand between two parts of a typed list. -/
def isSeparator (c : Char) : Bool := c = ',' || isBlank c

/-- The parts of a typed list. -/
def parts (t : Text) : List Text := (t.splitOnP isSeparator).filter (· ≠ [])

/-- A comma counts as white space. -/
def blankComma (c : Char) : Char := if c = ',' then ' ' else c

theorem blankComma_separator {c : Char} (h : isSeparator c = true) : isBlank (blankComma c) = true := by
  unfold blankComma
  split
  · decide
  · rename_i hc
    simpa [isSeparator, hc] using h

theorem blankComma_other {c : Char} (h : isSeparator c = false) : blankComma c = c ∧ isBlank c = false := by
  obtain ⟨hc, hblank⟩ : c ≠ ',' ∧ isBlank c = false := by simpa [isSeparator] using h
  exact ⟨if_neg hc, hblank⟩

theorem wordsFrom_eq : ∀ (t word : Text), (∀ c ∈ word, isSeparator c = false) →
    Text.wordsFrom word (t.map blankComma) = parts (word.reverse ++ t)
  | [], word, hword => by
    have hreverse : ∀ c ∈ word.reverse, isSeparator c = false := fun c hc => hword c (List.mem_reverse.1 hc)
    rw [List.append_nil, parts, List.splitOnP_eq_singleton hreverse, List.filter_singleton, List.map_nil, Text.wordsFrom]
    cases word <;> simp
  | c :: t, word, hword => by
    have hreverse : ∀ c ∈ word.reverse, isSeparator c = false := fun c hc => hword c (List.mem_reverse.1 hc)
    rw [List.map_cons, Text.wordsFrom]
    cases hc : isSeparator c with
    | true =>
      rw [if_pos (blankComma_separator hc), parts, List.splitOnP_append_cons_of_forall_mem hreverse c hc, List.filter_cons,
        wordsFrom_eq t [] (by simp)]
      cases word <;> simp [parts]
    | false =>
      obtain ⟨hsame, hblank⟩ := blankComma_other hc
      rw [hsame, hblank, if_neg Bool.false_ne_true, wordsFrom_eq t _ (List.forall_mem_cons.2 ⟨hc, hword⟩), List.reverse_cons,
        List.append_assoc, List.singleton_append]

theorem words_eq (t : Text) : Text.words (t.map blankComma) = parts t := wordsFrom_eq t [] (by simp)

theorem part_ne_nil {t part : Text} (h : part ∈ parts t) : part ≠ [] := by
  simpa using (List.mem_filter.1 h).2

/-! ## Digits -/

theorem decimalDigit?_lt {c : Char} {d : Nat} (h : decimalDigit? c = some d) : d < 10 := by
  obtain ⟨z, hz, rfl⟩ := Option.map_eq_some_iff.1 h
  have hrange := List.find?_some hz
  simp only [Bool.and_eq_true, decide_eq_true_eq] at hrange
  omega

/-- The ranges of digits and of signs for digits. -/
theorem digitSign_cases {c : Char} (h : isDigitSign c = true) :
    (∃ z ∈ decimalZeros, z ≤ c.toNat ∧ c.toNat < z + 10) ∨
      ∃ r ∈ digitSignRanges, r.1 ≤ c.toNat ∧ c.toNat ≤ r.2 := by
  rcases Bool.or_eq_true_iff.1 h with h | h
  · rw [decimalDigit?, Option.isSome_map, List.find?_isSome] at h
    exact .inl (by simpa using h)
  · exact .inr (by simpa using h)

/-- A range of code points with no digits and no signs for digits. -/
def hasNoDigit (low high : Nat) : Bool :=
  decimalZeros.all (fun z => decide (high < z ∨ z + 10 ≤ low)) &&
    digitSignRanges.all fun r => decide (high < r.1 ∨ r.2 < low)

theorem not_digitSign {low high : Nat} (h : hasNoDigit low high = true) {c : Char} (hlow : low ≤ c.toNat)
    (hhigh : c.toNat ≤ high) : isDigitSign c = false := by
  simp only [hasNoDigit, Bool.and_eq_true, List.all_eq_true, decide_eq_true_eq] at h
  rw [Bool.eq_false_iff]
  intro hc
  rcases digitSign_cases hc with ⟨z, hz, hrange⟩ | ⟨r, hr, hrange⟩
  · have := h.1 z hz
    omega
  · have := h.2 r hr
    omega

/-- No digit and no sign for one is white space. -/
theorem not_blank_of_digitSign {c : Char} (h : isDigitSign c = true) : isBlank c = false := by
  have hranges : ∀ r ∈ blankRanges, hasNoDigit r.1 r.2 = true := by decide
  rw [Bool.eq_false_iff]
  intro hblank
  obtain ⟨r, hr, hlow, hhigh⟩ : ∃ r ∈ blankRanges, r.1 ≤ c.toNat ∧ c.toNat ≤ r.2 := by simpa [isBlank] using hblank
  rw [not_digitSign (hranges r hr) hlow hhigh] at h
  cases h

/-- In base ten the digits are the decimal ones, not the letters. -/
theorem digitIn?_ten (c : Char) : digitIn? 10 c = decimalDigit? c := by
  have hletters (low high : Char) (hranges : hasNoDigit low.toNat high.toNat = true) (hlow : low ≤ c) (hhigh : c ≤ high) :
      decimalDigit? c = none := by
    have hsign := not_digitSign hranges hlow hhigh
    simpa using (Bool.or_eq_false_iff.1 hsign).1
  unfold digitIn?
  dsimp only
  split
  · rename_i h
    rw [hletters _ _ (by decide) h.1 h.2]
    simp [Option.filter]
  · split
    · rename_i h
      rw [hletters _ _ (by decide) h.1 h.2]
      simp [Option.filter]
    · cases hd : decimalDigit? c with
      | none => rfl
      | some d => simp [Option.filter, decimalDigit?_lt hd]

/-! ## Numerals -/

/-- The characters at the beginning of a part that are decimal digits. -/
def leadingDigits (part : Text) : Text := part.takeWhile fun c => (decimalDigit? c).isSome

/-- The number that a part names, if it has nothing but decimal digits. -/
def number? (part : Text) : Option Nat :=
  if part.all fun c => (decimalDigit? c).isSome then some (Nat.ofDigits 10 (part.filterMap decimalDigit?).reverse) else none

/-- Whether a part looks like a number, but has a sign that is no decimal digit, or more digits than are read. -/
def misleads (part : Text) : Bool :=
  part.all isDigitSign && (part.any (fun c => (decimalDigit? c).isNone) || numeralLimit < part.length)

/-- Why a part that misleads is not read. -/
def readFault (part : Text) : NumeralFault :=
  if numeralLimit < (leadingDigits part).length then .tooLong (leadingDigits part).length else .malformed 10 part

theorem ofDigits_eq (base : Nat) (ds : List Nat) : ofDigits base ds = Nat.ofDigits base ds.reverse := by
  rw [Nat.ofDigits_eq_foldr, List.foldr_reverse]
  simp [ofDigits, Nat.add_comm]

theorem ne_of_digitSign {c d : Char} (h : isDigitSign c = true) (hd : isDigitSign d = false) : c ≠ d := by
  rintro rfl
  rw [h] at hd
  cases hd

/-- Nothing is taken away before the digits of a part are looked at. -/
theorem body_of_digits {part : Text} (hdigits : ∀ c ∈ part, isDigitSign c = true) :
    signed (part.dropWhile isMargin) = (false, part) ∧ withoutMark 10 part = part := by
  have hmark : ∀ t : Text, withoutMark 10 t = t := by
    intro t
    unfold withoutMark
    split
    · rfl
    · rfl
  refine ⟨?_, hmark part⟩
  cases part with
  | nil => rfl
  | cons c t =>
    have hc := hdigits c (List.mem_cons_self ..)
    have hmargin : isMargin c = false := by simp [isMargin, not_blank_of_digitSign hc]
    rw [List.dropWhile_cons_of_neg (by rw [hmargin]; decide)]
    unfold signed
    split
    · rename_i h
      exact absurd (List.cons.inj h).1 (ne_of_digitSign hc (by decide))
    · rename_i h
      exact absurd (List.cons.inj h).1 (ne_of_digitSign hc (by decide))
    · rfl

theorem length_filterMap_digits {run : Text} (h : ∀ c ∈ run, (decimalDigit? c).isSome = true) :
    (run.filterMap decimalDigit?).length = run.length := by
  rw [List.length_filterMap_eq_countP, List.countP_eq_length]
  exact h

/-- A part that has only digits and signs for digits is read up to the first sign that is no decimal digit. -/
theorem read_digits {part : Text} (hdigits : ∀ c ∈ part, isDigitSign c = true) (hne : part ≠ []) :
    read part = if numeralLimit < (leadingDigits part).length then .error (.tooLong (leadingDigits part).length)
      else if part.all (fun c => (decimalDigit? c).isSome) then .ok (ofDigits 10 (part.filterMap decimalDigit?) : Int)
      else .error (.malformed 10 part) := by
  obtain ⟨hsigned, hmark⟩ := body_of_digits hdigits
  obtain ⟨run, rest, rfl, hleading, -, hrun, hstop⟩ := Text.exists_run (fun c => (decimalDigit? c).isSome) part
  -- an underscore could stand in a numeral, but looks like no digit
  have hline : ∀ c ∈ run ++ rest, c ≠ '_' := fun c hc => ne_of_digitSign (hdigits c hc) (by decide)
  have hrun' : ∀ c ∈ run, (decide (c = '_') || (decimalDigit? c).isSome) = true := by
    intro c hc
    rw [hrun c hc, Bool.or_true]
  have hstop' : ∀ c ∈ rest.head?, (decide (c = '_') || (decimalDigit? c).isSome) = false := by
    intro c hc
    rw [hstop c hc, Bool.or_false, decide_eq_false (hline c (List.mem_append_right _ (List.mem_of_head? hc)))]
  have hsplit : Text.split '_' run = [run] := Text.split_of_not_mem fun hmem => hline '_' (List.mem_append_left _ hmem) rfl
  have hlength := length_filterMap_digits hrun
  unfold read readIn
  simp only [hsigned, hmark, digitIn?_ten, Text.takeWhile_run hrun' hstop', Text.dropWhile_run hrun' hstop', hsplit, hlength]
  rw [show leadingDigits (run ++ rest) = run from hleading]
  cases rest with
  | nil =>
    have hall : run.all (fun c => (decimalDigit? c).isSome) = true := by simpa using hrun
    have hfilled : run.isEmpty = false := by simpa using hne
    simp [hfilled, hall, isLimited]
  | cons c rest =>
    have hdecimal : (decimalDigit? c).isSome = false := hstop c rfl
    have hmargin : isMargin c = false := by
      simp [isMargin, not_blank_of_digitSign (hdigits c (List.mem_append_right _ (List.mem_cons_self ..)))]
    cases run with
    | nil => simp [hdecimal]
    | cons d run => simp [hdecimal, hmargin, isLimited]

theorem digitSign_of_decimal {c : Char} (h : (decimalDigit? c).isSome = true) : isDigitSign c = true := by
  rw [isDigitSign, h, Bool.true_or]

theorem number?_of_other {part : Text} (h : part.all isDigitSign = false) : number? part = none := by
  refine if_neg fun hall => ?_
  have hsigns : part.all isDigitSign = true :=
    List.all_eq_true.2 fun c hc => digitSign_of_decimal (List.all_eq_true.1 hall c hc)
  rw [h] at hsigns
  cases hsigns

theorem leadingDigits_of_decimal {part : Text} (h : part.all (fun c => (decimalDigit? c).isSome) = true) :
    leadingDigits part = part :=
  List.takeWhile_eq_self_iff.2 (List.all_eq_true.1 h)

theorem read_of_misleads {part : Text} (hne : part ≠ []) (h : misleads part = true) : read part = .error (readFault part) := by
  obtain ⟨hdigits, hbad⟩ := Bool.and_eq_true_iff.1 h
  rw [read_digits (List.all_eq_true.1 hdigits) hne]
  unfold readFault
  split
  · rfl
  · rename_i hshort
    rw [if_neg]
    intro hall
    rw [leadingDigits_of_decimal hall] at hshort
    rcases Bool.or_eq_true_iff.1 hbad with hsign | hlong
    · obtain ⟨c, hc, hnone⟩ := List.any_eq_true.1 hsign
      rw [← Option.not_isSome, List.all_eq_true.1 hall c hc] at hnone
      cases hnone
    · exact hshort (of_decide_eq_true hlong)

theorem read_of_not_misleads {part : Text} (hne : part ≠ []) (hdigits : part.all isDigitSign = true)
    (h : misleads part = false) : ∃ n, number? part = some n ∧ read part = .ok (n : Int) := by
  rw [misleads, hdigits, Bool.true_and, Bool.or_eq_false_iff, decide_eq_false_iff_not] at h
  have hall : part.all (fun c => (decimalDigit? c).isSome) = true := by
    refine List.all_eq_true.2 fun c hc => ?_
    rw [← Option.not_isNone, Text.none_of_any h.1 c hc]
    rfl
  refine ⟨_, if_pos hall, ?_⟩
  rw [read_digits (List.all_eq_true.1 hdigits) hne, leadingDigits_of_decimal hall, if_neg h.2, if_pos hall, ofDigits_eq]

/-! ## Typed lists -/

/-- The position that a part gives in a list with a given number of items: that of the number it names, from zero on. -/
def position? (upper : Int) (part : Text) : Option Nat :=
  ((number? part).filter fun n : Nat => decide (1 ≤ n ∧ (n : Int) ≤ upper)).map (· - 1)

theorem position?_lt {upper : Int} {part : Text} {i : Nat} (h : position? upper part = some i) : (i : Int) < upper := by
  obtain ⟨n, hn, rfl⟩ := Option.map_eq_some_iff.1 h
  have hrange := of_decide_eq_true (Option.filter_eq_some_iff.1 hn).2
  omega

/-- One part of a typed list, while the positions of the parts before it are known. -/
def readPart (upper : Int) (found : List Nat) (part : Text) : Except NumeralFault (List Nat) := do
  if part.all isDigitSign then
    let n ← read part
    if 1 ≤ n ∧ n ≤ upper then return found ++ [(n - 1).toNat] else return found
  else return found

theorem readPart_eq (upper : Int) (found : List Nat) {part : Text} (hne : part ≠ []) :
    readPart upper found part =
      if misleads part then .error (readFault part) else .ok (found ++ (position? upper part).toList) := by
  unfold readPart
  cases hdigits : part.all isDigitSign with
  | false =>
    have hclear : misleads part = false := by rw [misleads, hdigits, Bool.false_and]
    simp [hclear, position?, number?_of_other hdigits, pure, Except.pure]
  | true =>
    rw [if_pos rfl]
    cases hbad : misleads part with
    | true =>
      rw [read_of_misleads hne hbad]
      rfl
    | false =>
      obtain ⟨n, hn, hread⟩ := read_of_not_misleads hne hdigits hbad
      rw [hread]
      show (if 1 ≤ (n : Int) ∧ (n : Int) ≤ upper then _ else _) = _
      by_cases hrange : 1 ≤ (n : Int) ∧ (n : Int) ≤ upper
      · have hposition : position? upper part = some (n - 1) := by
          have hkept : decide (1 ≤ n ∧ (n : Int) ≤ upper) = true := decide_eq_true ⟨by omega, hrange.2⟩
          simp only [position?, hn, Option.filter, hkept, if_true, Option.map_some]
        have hn : ((n : Int) - 1).toNat = n - 1 := by omega
        rw [if_pos hrange, hposition, hn]
        rfl
      · have hposition : position? upper part = none := by
          have hleft : decide (1 ≤ n ∧ (n : Int) ≤ upper) = false := decide_eq_false fun h => hrange ⟨by omega, h.2⟩
          simp only [position?, hn, Option.filter, hleft, Bool.false_eq_true, if_false, Option.map_none]
        rw [if_neg hrange, hposition]
        simp [pure, Except.pure]

theorem readParts_eq (upper : Int) : ∀ (parts : List Text) (found : List Nat), (∀ part ∈ parts, part ≠ []) →
    parts.foldlM (readPart upper) found = match parts.find? misleads with
      | some part => .error (readFault part)
      | none => .ok (found ++ parts.filterMap (position? upper))
  | [], found, _ => by simp [pure, Except.pure]
  | part :: parts, found, hne => by
    have ih := fun found => readParts_eq upper parts found fun p hp => hne p (List.mem_cons_of_mem part hp)
    rw [List.foldlM_cons, readPart_eq upper found (hne part (List.mem_cons_self ..))]
    cases hbad : misleads part with
    | true =>
      rw [List.find?_cons_of_pos hbad]
      rfl
    | false =>
      rw [List.find?_cons_of_neg (by rw [hbad]; decide)]
      show parts.foldlM (readPart upper) (found ++ (position? upper part).toList) = _
      rw [ih, List.append_assoc, List.filterMap_cons]
      cases position? upper part <;> rfl

/-- A typed list gives, in the order of its parts, the position of each part that names a number from one to the upper end,
all of them below that end, and passes over the other parts; unless a part misleads, and then the first such part is
reported. -/
theorem positions_exact (text : Text) (upper : Int) :
    (positions text upper = match (parts text).find? misleads with
      | some part => .error (readFault part)
      | none => .ok ((parts text).filterMap (position? upper))) ∧
    ∀ i ∈ (parts text).filterMap (position? upper), (i : Int) < upper := by
  constructor
  · have hparts : positions text upper = (parts text).foldlM (readPart upper) [] := by
      rw [← words_eq]
      rfl
    rw [hparts, readParts_eq upper (parts text) [] fun part hpart => part_ne_nil hpart]
    rfl
  · intro i hi
    obtain ⟨part, -, hpart⟩ := List.mem_filterMap.1 hi
    exact position?_lt hpart

/-- A raised two looks like a number and is not read as one. -/
theorem raised_digit_not_read : parts ['1', ' ', '²'] = [['1'], ['²']] ∧
    ∃ f, positions ['1', ' ', '²'] 5 = .error f ∧ f.message = "invalid literal for int() with base 10: '²'" :=
  ⟨by decide, Outcome.error_of_check (by decide +kernel)⟩

example : positions "3, 0 ٣;2" 3 = .ok [2] := by decide

end ActionSweep.Numeral
