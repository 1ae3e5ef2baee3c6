/-
Code points and texts. A text is a string without halves of pairs, so nothing in it is joined and it comes back from its
code points; and joining leaves a string as it is exactly if no half has the other one right behind it.
-/
import ActionSweep.Text.Points
import Mathlib.Data.List.Infix

namespace ActionSweep.Points

variable {n m : Nat} {ps : Points}

/-! ## Texts -/

theorem toNat_lt (c : Char) : c.toNat < 0xd800 ∨ 0xdfff < c.toNat ∧ c.toNat < 0x110000 := by
  have h := c.valid
  simpa [UInt32.isValidChar, Nat.isValidChar] using h

theorem isHigh_iff : isHigh n = true ↔ 0xd800 ≤ n ∧ n ≤ 0xdbff := by
  simp [isHigh]

theorem isLow_iff : isLow n = true ↔ 0xdc00 ≤ n ∧ n ≤ 0xdfff := by
  simp [isLow]

theorem not_high_char (c : Char) : isHigh c.toNat = false := by
  have h := toNat_lt c
  rw [Bool.eq_false_iff, ne_eq, isHigh_iff]
  omega

theorem not_low_char (c : Char) : isLow c.toNat = false := by
  have h := toNat_lt c
  rw [Bool.eq_false_iff, ne_eq, isLow_iff]
  omega

theorem toChar_toNat (c : Char) : toChar c.toNat = c := by
  unfold toChar
  rw [not_high_char, not_low_char, if_neg (by decide), Char.ofNat_toNat]

/-- Every character is a code point. -/
theorem lt_of_mem_ofText {t : Text} (h : n ∈ ofText t) : n < 0x110000 := by
  obtain ⟨c, -, rfl⟩ := List.mem_map.1 h
  have hc := toNat_lt c
  omega

/-! ## Joining -/

/-- What is no half of a pair with its neighbour stays. -/
theorem joined_cons (h : ∀ m rest, ps = m :: rest → isHigh n = true → isLow m = false) :
    joined (n :: ps) = n :: joined ps := by
  cases ps with
  | nil => rfl
  | cons m rest =>
    rw [joined, if_neg]
    rw [Bool.and_eq_true, not_and, Bool.not_eq_true]
    exact h m rest rfl

theorem joined_pair {rest : Points} (hn : isHigh n = true) (hm : isLow m = true) :
    joined (n :: m :: rest) = pair n m :: joined rest := by
  rw [joined, if_pos (by rw [hn, hm]; rfl)]

theorem length_joined_le (ps : Points) : ps.joined.length ≤ ps.length := by
  fun_induction joined ps with
  | case1 high low rest _ ih =>
    simp only [List.length_cons]
    omega
  | case2 high low rest _ ih => exact Nat.succ_le_succ ih
  | case3 => exact le_rfl

/-- A half of a pair with the other one right behind it. -/
def HoldsPair (ps : Points) : Prop := ∃ high low, [high, low] <:+: ps ∧ isHigh high = true ∧ isLow low = true

theorem holdsPair_cons {rest : Points} :
    HoldsPair (n :: m :: rest) ↔ (isHigh n = true ∧ isLow m = true) ∨ HoldsPair (m :: rest) := by
  unfold HoldsPair
  constructor
  · rintro ⟨high, low, hin, hhigh, hlow⟩
    rcases List.infix_cons_iff.1 hin with hfirst | hin
    · obtain ⟨rfl, hrest⟩ := List.cons_prefix_cons.1 hfirst
      obtain ⟨rfl, -⟩ := List.cons_prefix_cons.1 hrest
      exact .inl ⟨hhigh, hlow⟩
    · exact .inr ⟨high, low, hin, hhigh, hlow⟩
  · rintro (⟨hhigh, hlow⟩ | ⟨high, low, hin, h⟩)
    · exact ⟨n, m, ⟨[], rest, rfl⟩, hhigh, hlow⟩
    · exact ⟨high, low, List.infix_cons hin, h⟩

/-- Joining changes a string exactly if there is a pair of halves in it. -/
theorem joined_eq_iff (ps : Points) : ps.joined = ps ↔ ¬ ps.HoldsPair := by
  fun_induction joined ps with
  | case1 high low rest h ih =>
    rw [Bool.and_eq_true] at h
    refine iff_of_false (fun he => ?_) (not_not.2 (holdsPair_cons.2 (.inl h)))
    have hlength := congrArg List.length he
    have hle := length_joined_le rest
    simp only [List.length_cons] at hlength
    omega
  | case2 high low rest h ih =>
    rw [Bool.and_eq_true] at h
    rw [List.cons_inj_right, ih, holdsPair_cons, or_iff_right h]
  | case3 ps hps =>
    refine iff_of_true rfl ?_
    rintro ⟨high, low, ⟨before, rest, rfl⟩, -⟩
    cases before with
    | nil => exact hps high low rest rfl
    | cons n before =>
      cases before with
      | nil => exact hps n high (low :: rest) rfl
      | cons m before => exact hps n m (before ++ [high, low] ++ rest) rfl

/-- A text has no halves. -/
theorem joined_ofText (t : Text) : (ofText t).joined = ofText t := by
  rw [joined_eq_iff]
  rintro ⟨high, low, hin, hhigh, -⟩
  obtain ⟨c, -, rfl⟩ := List.mem_map.1 (hin.subset (List.mem_cons_self ..))
  rw [not_high_char] at hhigh
  cases hhigh

/-- A text comes back from its code points. -/
theorem text_ofText (t : Text) : (ofText t).text = t := by
  unfold text
  rw [joined_ofText, ofText, List.map_map]
  exact (List.map_congr_left fun c _ => toChar_toNat c).trans (List.map_id t)

end ActionSweep.Points
