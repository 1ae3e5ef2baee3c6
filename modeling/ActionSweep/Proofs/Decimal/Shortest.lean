/-
The shortest decimal number of a double. It lies among the reals that are nearest to the double, and with seventeen
digits there always is one, so it is found.
-/
import ActionSweep.Decimal.Shortest
import ActionSweep.Proofs.Decimal.Rounding
import Mathlib.Data.Nat.Cast.Order.Field

namespace ActionSweep

namespace Decimal

/-- What a decimal number stands for. -/
def value (d : Decimal) : ℚ := d.digits * 10 ^ d.exponent

/-! ## How many digits a number has -/

theorem lt_pow_width (n : ℕ) : n < 10 ^ width n := by
  unfold width
  split
  · rename_i h
    rw [h]
    norm_num
  · exact (Nat.length_toDigits_le_iff (by norm_num) Nat.length_toDigits_pos).1 le_rfl

theorem width_pos {n : ℕ} (hn : n ≠ 0) : 0 < width n := by
  rw [width, if_neg hn]
  exact Nat.length_toDigits_pos

theorem pow_width_le {n : ℕ} (hn : n ≠ 0) : 10 ^ (width n - 1) ≤ n := by
  by_contra hlt
  have hpos := width_pos hn
  rcases Nat.eq_zero_or_pos (width n - 1) with hzero | hmore
  · rw [hzero] at hlt
    omega
  · have hle := (Nat.length_toDigits_le_iff (by norm_num) hmore).2 (not_le.1 hlt)
    rw [width, if_neg hn] at hle hpos
    omega

/-! ## The interval over a common denominator -/

theorem pow_toNat {a : ℕ} (ha : a ≠ 0) (p : ℤ) :
    ((Nat.pow a p.toNat : ℕ) : ℚ) = a ^ p * (Nat.pow a (-p).toNat : ℕ) := by
  simp only [Nat.pow_eq]
  push_cast
  rw [← zpow_natCast, ← zpow_natCast, ← zpow_add₀ (by exact_mod_cast ha)]
  congr 1
  omega

section

variable {b : Binary} {x y : ℕ} {u v s : ℚ}

theorem le_iff_of_scaled (hs : 0 < s) (hx : (x : ℚ) = u * s) (hy : (y : ℚ) = v * s) : x ≤ y ↔ u ≤ v := by
  rw [← mul_le_mul_iff_left₀ hs, ← hx, ← hy, Nat.cast_le]

theorem lt_iff_of_scaled (hs : 0 < s) (hx : (x : ℚ) = u * s) (hy : (y : ℚ) = v * s) : x < y ↔ u < v := by
  rw [← mul_lt_mul_iff_left₀ hs, ← hx, ← hy, Nat.cast_lt]

/-- What the scale of a number and of a decimal exponent is multiplied by. -/
def scale (b : Binary) (p : ℤ) : ℚ := (Nat.pow 2 (2 - b.q).toNat : ℕ) * (Nat.pow 10 (-p).toNat : ℕ)

theorem scale_pos (b : Binary) (p : ℤ) : 0 < scale b p := by
  unfold scale
  simp only [Nat.pow_eq]
  positivity

theorem scaled_binary (b : Binary) (a : ℕ) (p : ℤ) :
    ((a * Nat.pow 2 (b.q - 2).toNat * Nat.pow 10 (-p).toNat : ℕ) : ℚ) = a / 4 * 2 ^ b.q * scale b p := by
  have hunit := pow_toNat two_ne_zero (b.q - 2)
  rw [neg_sub] at hunit
  push_cast [hunit]
  rw [zpow_sub₀ two_ne_zero, scale]
  ring

theorem scaled_decimal (b : Binary) (c : ℕ) (p : ℤ) :
    ((c * Nat.pow 10 p.toNat * (Scaled.ofBinary b).unit : ℕ) : ℚ) = c * 10 ^ p * scale b p := by
  have hten := pow_toNat (show 10 ≠ 0 by norm_num) p
  push_cast [hten, Scaled.ofBinary]
  rw [scale]
  ring

/-- The scale holds exactly the decimal numbers that are nearest to the binary one. -/
theorem holds_iff (hb : b.Canonical) (c : ℕ) (p : ℤ) :
    (Scaled.ofBinary b).holds c p = true ↔ b.Nears (c * 10 ^ p) := by
  have hpos : (0 : ℚ) < 2 ^ b.q := by positivity
  have hscale := scale_pos b p
  have hx := scaled_decimal b c p
  have hlow : (((Scaled.ofBinary b).low * Nat.pow 10 (-p).toNat : ℕ) : ℚ) = (b.m - b.gap) * 2 ^ b.q * scale b p := by
    have hm := hb.pos
    have hgap : (((4 * b.m - if b.narrow then 1 else 2 : ℕ) : ℕ) : ℚ) = 4 * (b.m - b.gap) := by
      unfold Binary.gap
      split
      · push_cast [show 1 ≤ 4 * b.m by omega]
        ring
      · push_cast [show 2 ≤ 4 * b.m by omega]
        ring
    refine (scaled_binary b _ p).trans ?_
    rw [hgap]
    ring
  have hhigh : (((Scaled.ofBinary b).high * Nat.pow 10 (-p).toNat : ℕ) : ℚ) = (b.m + 1 / 2) * 2 ^ b.q * scale b p := by
    refine (scaled_binary b (4 * b.m + 2) p).trans ?_
    push_cast
    ring
  have hclosed : (Scaled.ofBinary b).closed = decide (b.m % 2 = 0) := rfl
  simp only [Scaled.holds, Binary.Nears, le_div_iff₀ hpos, div_le_iff₀ hpos, lt_div_iff₀ hpos, div_lt_iff₀ hpos, hclosed]
  simp only [le_iff_of_scaled hscale hlow hx, le_iff_of_scaled hscale hx hhigh, lt_iff_of_scaled hscale hlow hx,
    lt_iff_of_scaled hscale hx hhigh]
  split <;> simp_all

/-- The highest digit of a number stands at most at its own place. -/
theorem Scaled.pow_leading_le {s : Scaled} (hvalue : 0 < s.value) (hunit : 0 < s.unit) :
    (10 : ℚ) ^ s.leading ≤ s.value / s.unit := by
  have hunit' : (0 : ℚ) < s.unit := by exact_mod_cast hunit
  unfold Scaled.leading
  split
  · rename_i hle
    have hwhole : s.value / s.unit ≠ 0 := (Nat.div_pos hle hunit).ne'
    have hwidth := width_pos hwhole
    have hfloor : ((s.value / s.unit : ℕ) : ℚ) ≤ s.value / s.unit := Nat.cast_div_le
    have hpow : ((10 ^ (width (s.value / s.unit) - 1) : ℕ) : ℚ) ≤ (s.value / s.unit : ℕ) := by
      exact_mod_cast pow_width_le hwhole
    rw [← Nat.cast_pred hwidth, zpow_natCast]
    push_cast at hpow
    exact hpow.trans hfloor
  · rename_i hlt
    have hpow := lt_pow_width ((s.unit + s.value - 1) / s.value - 1)
    generalize width ((s.unit + s.value - 1) / s.value - 1) = w at *
    have hnat : s.unit ≤ 10 ^ w * s.value := by
      have hdiv := Nat.div_add_mod (s.unit + s.value - 1) s.value
      have hmod := Nat.mod_lt (s.unit + s.value - 1) hvalue
      have hle : s.value * ((s.unit + s.value - 1) / s.value) ≤ s.value * 10 ^ w := Nat.mul_le_mul_left _ (by omega)
      rw [mul_comm (10 ^ w)]
      omega
    rw [zpow_neg, zpow_natCast, le_div_iff₀ hunit', ← div_eq_inv_mul, div_le_iff₀ (by positivity), mul_comm]
    exact_mod_cast hnat

theorem Scaled.unit_pos (b : Binary) : 0 < (Scaled.ofBinary b).unit := by
  show 0 < Nat.pow 2 _
  rw [Nat.pow_eq]
  positivity

theorem Scaled.value_ofBinary (b : Binary) : ((Scaled.ofBinary b).value : ℚ) = b.value * (Scaled.ofBinary b).unit := by
  have hscaled := scaled_binary b (4 * b.m) 0
  have hzero : (Nat.pow 10 (-0 : ℤ).toNat : ℕ) = 1 := rfl
  rw [scale, hzero, mul_one, Nat.cast_one, mul_one] at hscaled
  refine hscaled.trans ?_
  push_cast
  rw [Binary.value, Scaled.ofBinary]
  ring

theorem pow_leading_le (hb : b.Canonical) : 10 ^ (Scaled.ofBinary b).leading ≤ b.value := by
  have hunit : (0 : ℚ) < (Scaled.ofBinary b).unit := by exact_mod_cast Scaled.unit_pos b
  have hpos : (0 : ℚ) < (Scaled.ofBinary b).value := by
    have hm : (0 : ℚ) < b.m := by exact_mod_cast hb.pos
    rw [Scaled.value_ofBinary, Binary.value]
    positivity
  refine (Scaled.pow_leading_le (by exact_mod_cast hpos) (Scaled.unit_pos b)).trans_eq ?_
  rw [div_eq_iff hunit.ne', Scaled.value_ofBinary]

/-- What is off by less than a digit behind the sixteenth is nearest to the same number. -/
theorem nears_of_close (hb : b.Canonical) {x : ℚ} (h : |x - b.value| ≤ b.value / (2 * 10 ^ 16)) : b.Nears x := by
  have hpos : (0 : ℚ) < 2 ^ b.q := by positivity
  have hgap : (b.m : ℚ) / (2 * 10 ^ 16) < b.gap := by
    unfold Binary.gap
    split
    · rename_i hnarrow
      rw [(hb.narrow_iff.1 hnarrow).1]
      norm_num
    · have hm : (b.m : ℚ) ≤ 2 ^ 53 := by exact_mod_cast hb.short.le
      rw [div_lt_iff₀ (by norm_num)]
      norm_num at hm ⊢
      linarith
  obtain ⟨hlow, hhigh⟩ := abs_le.1 h
  have hclose : ∀ y : ℚ, y ≤ b.value / (2 * 10 ^ 16) → y / 2 ^ b.q ≤ b.m / (2 * 10 ^ 16) := by
    intro y hy
    rw [div_le_iff₀ hpos]
    exact hy.trans_eq (by rw [Binary.value]; ring)
  have hlow := hclose (b.value - x) (by linarith)
  have hhigh := hclose (x - b.value) hhigh
  rw [sub_div, Binary.value_scaled] at hlow hhigh
  exact Binary.nears_of_lt (by linarith) (by linarith [b.gap_le])

/-! ## Neighbours on a decimal grid -/

/-- The lower neighbour of a number on a decimal grid. -/
def below (s : Scaled) (p : ℤ) : ℕ := s.value * Nat.pow 10 (-p).toNat / (Nat.pow 10 p.toNat * s.unit)

theorem nearest?_holds {s : Scaled} {p : ℤ} {c : ℕ} (h : s.nearest? p = some c) : s.holds c p = true ∧ c ≠ 0 := by
  grind [Scaled.nearest?]

/-- If neither neighbour is taken, the upper one does not hold, and the lower one is zero or does not hold. -/
theorem nearest?_none {s : Scaled} {p : ℤ} (h : s.nearest? p = none) :
    s.holds (below s p + 1) p = false ∧ (s.holds (below s p) p = false ∨ below s p = 0) := by
  grind [Scaled.nearest?, below]

theorem below_le (b : Binary) (p : ℤ) : below (Scaled.ofBinary b) p * 10 ^ p ≤ b.value := by
  have hvalue := scaled_binary b (4 * b.m) p
  have hdecimal := scaled_decimal b (below (Scaled.ofBinary b) p) p
  rw [show ((4 * b.m : ℕ) : ℚ) / 4 * 2 ^ b.q = b.value by rw [Binary.value]; push_cast; ring] at hvalue
  rw [← le_iff_of_scaled (scale_pos b p) hdecimal hvalue, mul_assoc]
  exact Nat.div_mul_le_self ..

theorem lt_below (b : Binary) (p : ℤ) : b.value < (below (Scaled.ofBinary b) p + 1 : ℕ) * 10 ^ p := by
  have hvalue := scaled_binary b (4 * b.m) p
  have hdecimal := scaled_decimal b (below (Scaled.ofBinary b) p + 1) p
  rw [show ((4 * b.m : ℕ) : ℚ) / 4 * 2 ^ b.q = b.value by rw [Binary.value]; push_cast; ring] at hvalue
  have hstep : 0 < Nat.pow 10 p.toNat * (Scaled.ofBinary b).unit := by
    show 0 < Nat.pow 10 _ * Nat.pow 2 _
    simp only [Nat.pow_eq]
    positivity
  rw [← lt_iff_of_scaled (scale_pos b p) hvalue hdecimal, mul_assoc (below _ _ + 1)]
  exact (Nat.div_lt_iff_lt_mul hstep).1 (Nat.lt_succ_self _)

/-- Seventeen digits are enough. -/
theorem nearest?_seventeen (hb : b.Canonical) :
    ∃ c, (Scaled.ofBinary b).nearest? ((Scaled.ofBinary b).leading - 16) = some c := by
  by_contra hnone
  obtain ⟨hupper, hlower⟩ := nearest?_none (Option.eq_none_iff_forall_ne_some.2 (not_exists.1 hnone))
  have hle := below_le b ((Scaled.ofBinary b).leading - 16)
  have hlt := lt_below b ((Scaled.ofBinary b).leading - 16)
  have hstep : (10 : ℚ) ^ ((Scaled.ofBinary b).leading - 16) ≤ b.value / 10 ^ 16 := by
    rw [zpow_sub₀ (by norm_num)]
    exact div_le_div_of_nonneg_right (pow_leading_le hb) (by norm_num)
  rw [← Bool.not_eq_true, holds_iff hb] at hupper hlower
  generalize (Scaled.ofBinary b).leading - 16 = p at *
  generalize below (Scaled.ofBinary b) p = c at *
  have hp : (0 : ℚ) < 10 ^ p := by positivity
  have hsplit : ((c + 1 : ℕ) : ℚ) * 10 ^ p = c * 10 ^ p + 10 ^ p := by
    push_cast
    ring
  rw [hsplit] at hlt hupper
  -- one of the two neighbours is half a step away at most
  rcases le_or_gt b.value (c * 10 ^ p + 10 ^ p / 2) with hnear | hfar
  · have hnears := nears_of_close hb (x := c * 10 ^ p) (abs_le.2 ⟨by linarith, by linarith⟩)
    rcases hlower with hlower | rfl
    · exact hlower hnears
    · rw [Nat.cast_zero, zero_mul] at hle hlt
      linarith
  · exact hupper (nears_of_close hb (abs_le.2 ⟨by linarith, by linarith⟩))

/-! ## The shortest number -/

theorem stripZeros_spec (n : ℕ) {d : Decimal} (hd : d.digits ≠ 0) :
    (stripZeros n d).digits ≠ 0 ∧ (stripZeros n d).value = d.value := by
  induction n generalizing d with
  | zero => exact ⟨hd, rfl⟩
  | succ n ih =>
    rw [stripZeros]
    split
    · rename_i h
      rw [Bool.and_eq_true, decide_eq_true_eq, decide_eq_true_eq] at h
      obtain ⟨hdigits, hvalue⟩ := ih (d := ⟨d.digits / 10, d.exponent + 1⟩) (by dsimp only; omega)
      refine ⟨hdigits, hvalue.trans ?_⟩
      have hten : (d.digits : ℚ) = 10 * (d.digits / 10 : ℕ) := by exact_mod_cast (Nat.mul_div_cancel' (by omega)).symm
      rw [value, value, zpow_add_one₀ (by norm_num), hten]
      ring
    · exact ⟨hd, rfl⟩

/-- The shortest number is a neighbour on some grid, less the zeros at its end. -/
theorem shortest_found (hb : b.Canonical) :
    ∃ c p, (Scaled.ofBinary b).nearest? p = some c ∧ shortest b = stripZeros 20 ⟨c, p⟩ := by
  obtain ⟨c, hc⟩ := nearest?_seventeen hb
  unfold shortest
  rcases hfound : (List.range 17).findSome? fun (k : ℕ) =>
      ((Scaled.ofBinary b).nearest? ((Scaled.ofBinary b).leading - Int.ofNat k)).map fun c =>
        stripZeros 20 ⟨c, (Scaled.ofBinary b).leading - Int.ofNat k⟩ with _ | d
  · have hlast := List.findSome?_eq_none_iff.1 hfound 16 (by decide)
    rw [show Int.ofNat 16 = 16 from rfl, hc] at hlast
    cases hlast
  · obtain ⟨k, -, hk⟩ := List.exists_of_findSome?_eq_some hfound
    obtain ⟨c, hc, rfl⟩ := Option.map_eq_some_iff.1 hk
    exact ⟨c, _, hc, by dsimp only; rw [hfound]; rfl⟩

/-- The shortest number is nearest to the binary number. -/
theorem shortest_nears (hb : b.Canonical) : (shortest b).digits ≠ 0 ∧ b.Nears (shortest b).value := by
  obtain ⟨c, p, hc, hshortest⟩ := shortest_found hb
  obtain ⟨hholds, hzero⟩ := nearest?_holds hc
  obtain ⟨hdigits, hvalue⟩ := stripZeros_spec 20 (d := ⟨c, p⟩) hzero
  rw [hshortest, hvalue]
  exact ⟨hdigits, (holds_iff hb c p).1 hholds⟩

end

end Decimal

end ActionSweep
