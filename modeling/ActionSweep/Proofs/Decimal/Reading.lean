/-
Decimal numbers as doubles. A decimal number that is nearest to a finite double is read as that double, whichever way
its digits and its exponent are computed with.
-/
import ActionSweep.Proofs.Decimal.Doubles
import ActionSweep.Proofs.Decimal.Shortest

namespace ActionSweep

open Float.Model Float.Model.UnpackedFloat

namespace Decimal

variable {b : Binary} {v : ℚ}

/-! ## The range of doubles -/

theorem half_le (hb : b.Canonical) : (1 : ℚ) / 2 ≤ b.m - b.gap := by
  have hm : (1 : ℚ) ≤ b.m := by exact_mod_cast hb.pos
  linarith [b.gap_le]

theorem pow_two_lt {n m : ℕ} (hm : m ≠ 0) (hn : n ≤ 3 * m) : 2 ^ n < 10 ^ m := calc
  2 ^ n ≤ 2 ^ (3 * m) := Nat.pow_le_pow_right two_pos hn
  _ = (2 ^ 3) ^ m := pow_mul 2 3 m
  _ < 10 ^ m := Nat.pow_lt_pow_left (by decide) hm

/-- A power of ten below a finite double. -/
theorem exponent_lt (hb : b.Canonical) (hv : b.Nears v) {k : ℤ} (hk : 10 ^ k ≤ v) : k < 400 := by
  have hpos : (0 : ℚ) < 2 ^ b.q := by positivity
  have hhigh := hv.ends.2
  rw [div_le_iff₀ hpos] at hhigh
  have hm : (b.m : ℚ) + 1 / 2 ≤ 2 ^ (53 : ℤ) := by
    have : (b.m : ℚ) + 1 ≤ 2 ^ 53 := by exact_mod_cast hb.short
    norm_num at this ⊢
    linarith
  have hq : (2 : ℚ) ^ b.q ≤ 2 ^ (971 : ℤ) := zpow_le_zpow_right₀ one_le_two hb.highest
  have : (10 : ℚ) ^ k < 10 ^ (400 : ℤ) := calc
    (10 : ℚ) ^ k ≤ (b.m + 1 / 2) * 2 ^ b.q := hk.trans hhigh
    _ ≤ 2 ^ (53 : ℤ) * 2 ^ (971 : ℤ) := by gcongr
    _ = 2 ^ (1024 : ℤ) := by rw [← zpow_add₀ two_ne_zero]; rfl
    _ < 10 ^ (400 : ℤ) := by exact_mod_cast pow_two_lt (n := 1024) (m := 400) (by decide) (by decide)
  exact (zpow_lt_zpow_iff_right₀ (by norm_num)).1 this

/-- A power of ten above a positive double. -/
theorem lt_exponent (hb : b.Canonical) (hv : b.Nears v) {k : ℤ} (hk : v < 10 ^ k) : -400 < k := by
  have hpos : (0 : ℚ) < 2 ^ b.q := by positivity
  have hlow := (half_le hb).trans hv.ends.1
  rw [le_div_iff₀ hpos] at hlow
  have hq : (2 : ℚ) ^ (-1074 : ℤ) ≤ 2 ^ b.q := zpow_le_zpow_right₀ one_le_two hb.lowest
  have : (10 : ℚ) ^ (-400 : ℤ) < 10 ^ k := calc
    (10 : ℚ) ^ (-400 : ℤ) ≤ 1 / 2 * 2 ^ (-1074 : ℤ) := by
      rw [zpow_neg, zpow_neg, ← div_eq_mul_inv, div_div, one_div, inv_le_inv₀ (by positivity) (by positivity)]
      exact_mod_cast (pow_succ' 2 1074).symm.le.trans (pow_two_lt (by decide) (by decide)).le
    _ ≤ 1 / 2 * 2 ^ b.q := by gcongr
    _ < 10 ^ k := hlow.trans_lt hk
  exact (zpow_lt_zpow_iff_right₀ (by norm_num)).1 this

theorem pos_of_nears (hb : b.Canonical) (hv : b.Nears v) : 0 < v := by
  have hpos : (0 : ℚ) < 2 ^ b.q := by positivity
  have hlow := (half_le hb).trans hv.ends.1
  rw [le_div_iff₀ hpos] at hlow
  exact lt_of_lt_of_le (by positivity) hlow

/-! ## Exact arithmetic -/

variable {m : ℕ} {e : ℤ}

theorem whole_pos (hb : b.Canonical) (hv : b.Nears (m * 10 ^ e)) : 0 < m := by
  have hpos := pos_of_nears hb hv
  rcases Nat.eq_zero_or_pos m with rfl | hm
  · simp at hpos
  · exact hm

/-- Whole numbers and powers of ten are computed exactly, so that nothing is rounded but the result. -/
theorem ofScientific_nears (hb : b.Canonical) (hv : b.Nears (m * 10 ^ e)) :
    UnpackedFloat.ofScientific .binary64 m e = .finite .positive b.m b.q hb.pos := by
  have hm : m ≠ 0 := (whole_pos hb hv).ne'
  have hone : (1 : ℚ) ≤ m := by exact_mod_cast Nat.pos_of_ne_zero hm
  have hten : (0 : ℚ) < 10 ^ e := by positivity
  have hhigh : e < 400 := exponent_lt hb hv (le_mul_of_one_le_left hten.le hone)
  have hlow : -400 < m.log2 + 1 + e := by
    refine lt_exponent hb hv ?_
    have hlog : (m : ℚ) < 10 ^ (m.log2 + 1) := by
      have : m < 10 ^ (m.log2 + 1) := Nat.lt_log2_self.trans_le (Nat.pow_le_pow_left (by norm_num) _)
      exact_mod_cast this
    rw [zpow_add₀ (by norm_num)]
    exact mul_lt_mul_of_pos_right (by exact_mod_cast hlog) hten
  unfold UnpackedFloat.ofScientific
  rw [dif_neg hm, if_neg (by norm_num; omega), if_neg (by norm_num; omega)]
  split
  · rename_i he
    have hpow : ((10 ^ e.toNat : ℕ) : ℚ) = 10 ^ e := by
      push_cast
      rw [← zpow_natCast, Int.toNat_of_nonneg he]
    have hvalue : ((m <<< 53 : ℕ) : ℚ) * 2 ^ (-53 : ℤ) * ((10 ^ e.toNat : ℕ) * 2 ^ (0 : ℤ)) = m * 10 ^ e := by
      have hshift := Rounding.shiftLeft_value m 0 53
      rw [zpow_zero, mul_one] at hshift ⊢
      rw [hpow, ← hshift]
      rfl
    have hwide : 2 ^ 52 ≤ m <<< 53 * 10 ^ e.toNat := by
      rw [Nat.shiftLeft_eq]
      have : 0 < m * 10 ^ e.toNat := by positivity
      calc 2 ^ 52 ≤ 2 ^ 53 * (m * 10 ^ e.toNat) := by omega
        _ = m * 2 ^ 53 * 10 ^ e.toNat := by ring
    exact Rounding.mul_nears hb .positive .positive _ _ hwide (hvalue.symm ▸ hv)
  · rename_i he
    have hpow : ((10 ^ (-e).toNat : ℕ) : ℚ) = 10 ^ (-e) := by
      push_cast
      rw [← zpow_natCast, Int.toNat_of_nonneg (by omega)]
    have hvalue : (m : ℚ) * 2 ^ (0 : ℤ) / ((10 ^ (-e).toNat : ℕ) * 2 ^ (0 : ℤ)) = m * 10 ^ e := by
      rw [hpow, zpow_zero, mul_one, mul_one, zpow_neg, div_inv_eq_mul]
    exact Rounding.div_nears hb .positive .positive _ _ (hvalue.symm ▸ hv)

/-! ## Powers of ten that are doubles -/

/-- Whether an unpacked double is exactly a whole number. -/
def isExactly (n : ℕ) : UnpackedFloat → Bool
  | .finite .positive m e _ => decide (-52 ≤ e) && m * 2 ^ (e + 52).toNat == n * 2 ^ 52
  | _ => false

theorem isExactly_powers : ∀ e : Fin Float.exactlyRepresentablePowersOfTen.size,
    isExactly (10 ^ e.val) Float.exactlyRepresentablePowersOfTen[e].toModel.unpack = true := by
  decide +kernel

theorem of_isExactly {n : ℕ} {u : UnpackedFloat} (h : isExactly n u = true) :
    ∃ m e hm, u = .finite .positive m e hm ∧ (m * 2 ^ e : ℚ) = n := by
  unfold isExactly at h
  split at h
  · rename_i m e hm
    simp only [Bool.and_eq_true, decide_eq_true_eq, beq_iff_eq] at h
    refine ⟨m, e, hm, rfl, ?_⟩
    have hscaled : (m : ℚ) * 2 ^ (e + 52).toNat = n * 2 ^ 52 := by exact_mod_cast h.2
    rw [← zpow_natCast, Int.toNat_of_nonneg (by omega), zpow_add₀ two_ne_zero, ← mul_assoc] at hscaled
    exact mul_right_cancel₀ (by norm_num) hscaled
  · cases h

theorem exists_canonical {n : ℕ} (hpos : 0 < n) (hn : n < 2 ^ 53) :
    ∃ c : Binary, c.Canonical ∧ c.value = n ∧ 2 ^ 52 ≤ c.m := by
  have hlog : n.log2 < 53 := (Nat.log2_lt hpos.ne').2 hn
  have hlow : 2 ^ 52 ≤ n * 2 ^ (52 - n.log2) := by
    calc 2 ^ 52 = 2 ^ n.log2 * 2 ^ (52 - n.log2) := by rw [← pow_add]; congr 1; omega
      _ ≤ n * 2 ^ (52 - n.log2) := Nat.mul_le_mul_right _ (Nat.log2_self_le hpos.ne')
  have hhigh : n * 2 ^ (52 - n.log2) < 2 ^ 53 := by
    calc n * 2 ^ (52 - n.log2) < 2 ^ (n.log2 + 1) * 2 ^ (52 - n.log2) :=
          Nat.mul_lt_mul_of_pos_right Nat.lt_log2_self (by positivity)
      _ = 2 ^ 53 := by rw [← pow_add]; congr 1; omega
  refine ⟨⟨n * 2 ^ (52 - n.log2), -(52 - n.log2 : ℕ), n * 2 ^ (52 - n.log2) = 2 ^ 52⟩, ?_, ?_, hlow⟩
  · exact ⟨by positivity, hhigh, by dsimp only; omega, by dsimp only; omega, .inl hlow, by simp; omega⟩
  · rw [Binary.value, zpow_neg, zpow_natCast]
    push_cast
    field_simp

/-- A whole number of at most 53 bits is a double. -/
theorem toFloat_unpack {n : ℕ} (hpos : 0 < n) (hn : n < 2 ^ 53) :
    ∃ m e hm, n.toUInt64.toFloat.toModel.unpack = .finite .positive m e hm ∧ (m * 2 ^ e : ℚ) = n ∧ 2 ^ 52 ≤ m := by
  obtain ⟨c, hc, hvalue, hfull⟩ := exists_canonical hpos hn
  have hround : UnpackedFloat.ofUInt64 .binary64 n.toUInt64 = .finite .positive c.m c.q hc.pos := by
    have hn' : n.toUInt64.toNat = n := UInt64.toNat_ofNat_of_lt' (hn.trans (by norm_num))
    have hsign : compare (n : ℤ) 0 = .gt := Int.compare_eq_gt.2 (by exact_mod_cast hpos)
    show UnpackedFloat.normalize .binary64 (n.toUInt64.toNat : ℤ) 0 .positive = _
    rw [hn', UnpackedFloat.normalize, hsign]
    exact Rounding.round_nears hc .positive hpos (by simpa [hvalue] using c.nears_value)
  refine ⟨c.m, c.q, hc.pos, ?_, hvalue, hfull⟩
  show (Float.Model.pack (UnpackedFloat.ofUInt64 .binary64 n.toUInt64)).unpack = _
  rw [hround]
  exact Double.unpack_double hc false

/-! ## Reading -/

theorem mul_of_unpack {x y : Float} {u w r : UnpackedFloat} (hx : x.toModel.unpack = u) (hy : y.toModel.unpack = w)
    (h : UnpackedFloat.mul .binary64 u w = r) : x * y = .ofModel (.pack r) := by
  rw [← h, ← hx, ← hy]
  rfl

theorem div_of_unpack {x y : Float} {u w r : UnpackedFloat} (hx : x.toModel.unpack = u) (hy : y.toModel.unpack = w)
    (h : UnpackedFloat.div .binary64 u w = r) : x / y = .ofModel (.pack r) := by
  rw [← h, ← hx, ← hy]
  rfl

theorem ofScientific_float (hb : b.Canonical) {k : ℕ} {s : Bool}
    (hv : b.Nears (m * 10 ^ (if s then -(k : ℤ) else k))) : Float.ofScientific m s k = b.double false hb.pos := by
  unfold Float.ofScientific
  split
  · rename_i hsmall
    obtain ⟨m₁, e₁, h₁, hwhole, hvalue₁, hfull⟩ := toFloat_unpack (whole_pos hb hv) hsmall.1
    obtain ⟨m₂, e₂, h₂, hpower, hvalue₂⟩ := of_isExactly (isExactly_powers ⟨k, Nat.lt_succ_of_le hsmall.2⟩)
    push_cast at hvalue₂
    cases s
    · exact mul_of_unpack hwhole hpower (Rounding.mul_nears hb .positive .positive h₁ h₂
        (hfull.trans (Nat.le_mul_of_pos_right _ h₂)) (by simpa [hvalue₁, hvalue₂] using hv))
    · exact div_of_unpack hwhole hpower (Rounding.div_nears hb .positive .positive h₁ h₂
        (by simpa [hvalue₁, hvalue₂, div_eq_mul_inv] using hv))
  · have he : (if s then Int.negOfNat k else Int.ofNat k) = if s then -(k : ℤ) else k := by
      split
      · exact Int.negOfNat_eq
      · rfl
    dsimp only
    rw [he]
    exact congrArg (fun u => Float.ofModel (.pack u)) (ofScientific_nears hb hv)

/-- A decimal number that is nearest to a double is read as that double. -/
theorem floatOfDecimal_nears (hb : b.Canonical) {d : ℕ} (hv : b.Nears (d * 10 ^ e)) (negative : Bool) :
    floatOfDecimal negative d e = b.double negative hb.pos := by
  have hd := whole_pos hb hv
  have hten : (0 : ℚ) < 10 ^ e := by positivity
  have hhigh : (width d : ℤ) - 1 + e < 400 := by
    refine exponent_lt hb hv ?_
    have hpow : ((10 ^ (width d - 1) : ℕ) : ℚ) ≤ d := by exact_mod_cast pow_width_le hd.ne'
    rw [zpow_add₀ (by norm_num), ← Nat.cast_pred (width_pos hd.ne'), zpow_natCast]
    push_cast at hpow
    exact mul_le_mul_of_nonneg_right hpow hten.le
  have hlow : -400 < (width d : ℤ) + e := by
    refine lt_exponent hb hv ?_
    have hpow : (d : ℚ) < (10 ^ width d : ℕ) := by exact_mod_cast lt_pow_width d
    rw [zpow_add₀ (by norm_num), zpow_natCast]
    push_cast at hpow
    exact mul_lt_mul_of_pos_right hpow hten
  have hmagnitude : (if e < 0 then Float.ofScientific d true e.natAbs else Float.ofScientific d false e.natAbs) =
      b.double false hb.pos := by
    split
    · exact ofScientific_float hb (by rwa [if_pos rfl, show -(e.natAbs : ℤ) = e by omega])
    · exact ofScientific_float hb (by rwa [if_neg Bool.false_ne_true, show (e.natAbs : ℤ) = e by omega])
  unfold floatOfDecimal
  simp only [if_neg hd.ne', if_neg (show ¬ (width d : ℤ) + e > 400 by omega), if_neg (show ¬ (width d : ℤ) + e < -400 by omega),
    hmagnitude]
  cases negative
  · rfl
  · exact Double.neg_double hb

end Decimal

end ActionSweep
