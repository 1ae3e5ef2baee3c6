/-
Rounding to the nearest double. A binary number stands for the reals of an interval around it, with its ends if its
mantissa is even; a number that is known up to two more bits and whether anything follows them is rounded to the binary
number in whose interval it lies.
-/
import ActionSweep.Decimal.Shortest
import Mathlib

namespace ActionSweep

open Float.Model Float.Model.UnpackedFloat

/-! ## Binary numbers and their intervals -/

namespace Binary

/-- What a binary number stands for. -/
def value (b : Binary) : ℚ := b.m * 2 ^ b.q

/-- How far below a binary number the reals begin that are nearest to it, in units of its last bit. -/
def gap (b : Binary) : ℚ := if b.narrow then 1 / 4 else 1 / 2

/-- A real that is nearest to a binary number; in the middle of two it goes to the even mantissa. -/
def Nears (b : Binary) (v : ℚ) : Prop :=
  if b.m % 2 = 0 then b.m - b.gap ≤ v / 2 ^ b.q ∧ v / 2 ^ b.q ≤ b.m + 1 / 2
  else b.m - b.gap < v / 2 ^ b.q ∧ v / 2 ^ b.q < b.m + 1 / 2

/-- A finite positive double: a mantissa of 53 bits, or of fewer with the lowest exponent. -/
structure Canonical (b : Binary) : Prop where
  pos : 0 < b.m
  short : b.m < 2 ^ 53
  lowest : -1074 ≤ b.q
  highest : b.q ≤ 971
  full : 2 ^ 52 ≤ b.m ∨ b.q = -1074
  narrow_iff : b.narrow = true ↔ b.m = 2 ^ 52 ∧ b.q ≠ -1074

variable {b : Binary} {v : ℚ}

theorem Nears.ends (h : b.Nears v) : b.m - b.gap ≤ v / 2 ^ b.q ∧ v / 2 ^ b.q ≤ b.m + 1 / 2 := by
  unfold Nears at h
  split at h
  · exact h
  · exact ⟨h.1.le, h.2.le⟩

theorem gap_le (b : Binary) : b.gap ≤ 1 / 2 := by
  unfold gap
  split <;> norm_num

theorem gap_pos (b : Binary) : 0 < b.gap := by
  unfold gap
  split <;> norm_num

theorem gap_of_narrow (h : b.narrow = true) : b.gap = 1 / 4 := if_pos h

theorem value_scaled (b : Binary) : b.value / 2 ^ b.q = b.m := by
  rw [value, mul_div_cancel_right₀ _ (by positivity)]

/-- What lies strictly between the ends is nearest, whatever the ends are. -/
theorem nears_of_lt (hlow : b.m - b.gap < v / 2 ^ b.q) (hhigh : v / 2 ^ b.q < b.m + 1 / 2) : b.Nears v := by
  unfold Nears
  split
  · exact ⟨hlow.le, hhigh.le⟩
  · exact ⟨hlow, hhigh⟩

theorem nears_value (b : Binary) : b.Nears b.value := by
  refine nears_of_lt ?_ ?_ <;> rw [value_scaled] <;> linarith [b.gap_pos]

end Binary

namespace Rounding

/-! ## A mantissa with two more bits -/

/-- The smallest number that begins with a mantissa and the bit after it. -/
def start (em : ExtendedMantissa) : ℚ := em.mantissa + if em.roundBit then 1 / 2 else 0

/-- The numbers that a mantissa with two more bits leaves open: the first bit is a half, the second says whether
anything follows. -/
def Describes (em : ExtendedMantissa) (x : ℚ) : Prop :=
  if em.stickyBit then start em < x ∧ x < start em + 1 / 2 else x = start em

theorem start_shiftRightOne (em : ExtendedMantissa) : start em.shiftRightOne = em.mantissa / 2 := by
  have hm : (em.mantissa : ℚ) = 2 * (em.mantissa / 2 : ℕ) + (em.mantissa % 2 : ℕ) := by
    exact_mod_cast (Nat.div_add_mod em.mantissa 2).symm
  obtain hbit | hbit : em.mantissa % 2 = 0 ∨ em.mantissa % 2 = 1 := by omega
  all_goals
    rw [hbit] at hm
    rw [start, ExtendedMantissa.shiftRightOne, hm]
    simp [hbit]
    try ring

namespace Describes

variable {em : ExtendedMantissa} {x : ℚ}

theorem floor (h : Describes em x) : em.mantissa ≤ x ∧ x < em.mantissa + 1 := by
  unfold Describes start at h
  split at h <;> split at h <;> constructor <;> linarith

theorem shiftRightOne (h : Describes em x) : Describes em.shiftRightOne (x / 2) := by
  have hstart : start em.shiftRightOne = em.mantissa / 2 := start_shiftRightOne em
  obtain ⟨m, r, s⟩ := em
  unfold Describes at h ⊢
  rw [hstart]
  unfold start at h
  cases r <;> cases s <;> simp [ExtendedMantissa.shiftRightOne] at h ⊢
  · linarith only [h]
  · exact ⟨by linarith only [h.1], by linarith only [h.2]⟩
  · exact ⟨by linarith only [h], by linarith only [h]⟩
  · exact ⟨by linarith only [h.1], by linarith only [h.2]⟩

theorem shiftRight (h : Describes em x) (n : ℕ) : Describes (em >>> n) (x / 2 ^ n) := by
  induction n with
  | zero =>
    rw [pow_zero, div_one]
    exact h
  | succ n ih =>
    have hstep := ih.shiftRightOne
    rwa [div_div, ← pow_succ] at hstep

/-- The rounded mantissa is the nearest whole number, the even one of two. -/
theorem rounded {n : ℕ} (h : Describes em x) (hlow : (n : ℚ) - 1 / 2 ≤ x) (hhigh : x ≤ n + 1 / 2)
    (hodd : n % 2 = 1 → (n : ℚ) - 1 / 2 < x ∧ x < n + 1 / 2) : em.roundedMantissa = n := by
  obtain ⟨m, r, s⟩ := em
  obtain ⟨hfloor, hnext⟩ : (m : ℚ) ≤ x ∧ x < m + 1 := h.floor
  have below : (n : ℚ) < m + 2 := by linarith only [hlow, hnext]
  have above : (m : ℚ) < n + 1 := by linarith only [hhigh, hfloor]
  norm_cast at below above
  unfold Describes start at h
  obtain rfl | rfl : n = m ∨ n = m + 1 := by omega
  · cases r <;> cases s <;> simp at h
    · rfl
    · rfl
    · have heven : n % 2 = 0 := by
        by_contra hne
        have := (hodd (by omega)).2
        linarith only [h, this]
      exact congrArg (n + ·) heven
    · linarith only [h.1, hhigh]
  · push_cast at hlow hodd
    cases r <;> cases s <;> simp at h
    · linarith only [h, hlow]
    · linarith only [h.2, hlow]
    · have heven : m % 2 = 1 := by
        by_contra hne
        have := (hodd (by omega)).1
        linarith only [h, this]
      exact congrArg (m + ·) heven
    · rfl

end Describes

/-! ## Rounding -/

theorem describes_exact (m : ℕ) : Describes (ExtendedMantissa.ofMantissaAndAccuracy m .exact) m := by
  simp [Describes, start, ExtendedMantissa.ofMantissaAndAccuracy]

/-- The exponent of the last bit that is kept of `m · 2^e`. -/
def lastBit (m : ℕ) (e : ℤ) : ℤ := max (m.log2 + 1 + e - 53) (-1074)

theorem shiftToTargetExponent_eq {m : ℕ} {e : ℤ} {acc : Accuracy} (h : e ≤ lastBit m e) :
    shiftToTargetExponent .binary64 m e acc =
      (ExtendedMantissa.ofMantissaAndAccuracy m acc >>> (lastBit m e - e).toNat, lastBit m e) := by
  have he : e + ((lastBit m e - e).toNat : ℤ) = lastBit m e := by omega
  exact Prod.ext rfl he

section

variable {b : Binary} {v : ℚ} {M : ℕ} {E : ℤ}

/-- A number is less than the power of two above its mantissa. -/
theorem lt_of_log2 (hhigh : v / 2 ^ E < M + 1) : v < 2 ^ (M.log2 + 1 + E : ℤ) := by
  have hM : (M : ℚ) + 1 ≤ 2 ^ (M.log2 + 1) := by exact_mod_cast Nat.lt_log2_self
  rw [zpow_add₀ two_ne_zero, ← div_lt_iff₀ (by positivity)]
  exact_mod_cast hhigh.trans_le hM

theorem log2_le (hM : M ≠ 0) (hlow : M ≤ v / 2 ^ E) : 2 ^ (M.log2 + E : ℤ) ≤ v := by
  have hlog : (2 : ℚ) ^ M.log2 ≤ M := by exact_mod_cast Nat.log2_self_le hM
  rw [zpow_add₀ two_ne_zero, ← le_div_iff₀ (by positivity)]
  exact_mod_cast hlog.trans hlow

/-- The last bit that is kept is no higher than that of the binary number. -/
theorem lastBit_le (hb : b.Canonical) (hv : b.Nears v) (hlow : M ≤ v / 2 ^ E) (hE : E ≤ lastBit M E) : lastBit M E ≤ b.q := by
  have hpos : (0 : ℚ) < 2 ^ b.q := by positivity
  have hone : (1 : ℚ) < 2 := by norm_num
  have hv₂ := hv.ends.2
  rw [div_le_iff₀ hpos] at hv₂
  have hlowest := hb.lowest
  unfold lastBit at hE ⊢
  rcases eq_or_ne M 0 with rfl | hM
  · simp only [Nat.log2_zero, Nat.cast_zero, zero_add, le_sup_iff, sup_le_iff, tsub_le_iff_right] at hE ⊢
    omega
  · have hm : (b.m : ℚ) + 1 ≤ 2 ^ 53 := by exact_mod_cast hb.short
    have hpow : (2 : ℚ) ^ (M.log2 + E : ℤ) < 2 ^ (53 + b.q) := by
      rw [zpow_add₀ two_ne_zero (53 : ℤ)]
      refine (log2_le hM hlow).trans_lt (hv₂.trans_lt (mul_lt_mul_of_pos_right ?_ hpos))
      norm_num at hm ⊢
      linarith
    have := (zpow_lt_zpow_iff_right₀ hone).1 hpow
    omega

/-- The last bit that is kept is that of the binary number, or the one behind it if the number is a power of two and
what is rounded lies below. -/
theorem lastBit_cases (hb : b.Canonical) (hv : b.Nears v) (hlow : M ≤ v / 2 ^ E) (hhigh : v / 2 ^ E < M + 1)
    (hE : E ≤ lastBit M E) :
    lastBit M E = b.q ∨ lastBit M E = b.q - 1 ∧ b.m = 2 ^ 52 ∧ v < 2 ^ (lastBit M E + 53) := by
  have hv₁ := hv.ends.1
  have hpos : (0 : ℚ) < 2 ^ b.q := by positivity
  have hone : (1 : ℚ) < 2 := by norm_num
  have hL := lt_of_log2 hhigh
  rw [le_div_iff₀ hpos] at hv₁
  have hle := lastBit_le hb hv hlow hE
  -- the number is at least the power of two that its binade begins with, or half of it if it may lie below
  have hbelow : ∀ k : ℤ, (2 : ℚ) ^ k ≤ b.m - b.gap → k + b.q < M.log2 + 1 + E := by
    intro k hk
    have : (2 : ℚ) ^ (k + b.q) < 2 ^ (M.log2 + 1 + E : ℤ) := by
      rw [zpow_add₀ two_ne_zero k]
      exact (mul_le_mul_of_nonneg_right hk hpos.le).trans_lt (hv₁.trans_lt hL)
    exact (zpow_lt_zpow_iff_right₀ hone).1 this
  by_cases hq : b.q = -1074
  · left
    unfold lastBit at hle ⊢
    omega
  · have hfull := hb.full.resolve_right hq
    rcases hfull.eq_or_lt with hm | hm
    · have hk := hbelow 51 (by rw [← hm]; norm_num; linarith [b.gap_le])
      rcases eq_or_ne (lastBit M E) b.q with heq | hne
      · exact .inl heq
      · refine .inr ⟨?_, hm.symm, hL.trans_le (zpow_le_zpow_right₀ hone.le ?_)⟩
        all_goals unfold lastBit at hne hle ⊢; omega
    · have hm' : (2 : ℚ) ^ 52 + 1 ≤ b.m := by exact_mod_cast hm
      have hk := hbelow 52 (by rw [zpow_ofNat]; linarith [b.gap_le])
      left
      unfold lastBit at hle ⊢
      omega

/-- The mantissa that a number is cut to, described and rounded. -/
theorem cut_describes {acc : Accuracy} (hM : Describes (ExtendedMantissa.ofMantissaAndAccuracy M acc) (v / 2 ^ E))
    (hE : E ≤ lastBit M E) :
    Describes (ExtendedMantissa.ofMantissaAndAccuracy M acc >>> (lastBit M E - E).toNat) (v / 2 ^ lastBit M E) := by
  have hshift := hM.shiftRight (lastBit M E - E).toNat
  rwa [div_div, ← zpow_natCast, ← zpow_add₀ two_ne_zero, Int.toNat_of_nonneg (by omega), add_sub_cancel] at hshift

theorem ofMantissaAndAccuracy_mantissa (M : ℕ) (acc : Accuracy) :
    (ExtendedMantissa.ofMantissaAndAccuracy M acc).mantissa = M := by
  rcases acc with _ | o
  · rfl
  · cases o <;> rfl

theorem lastBit_canonical (hb : b.Canonical) : lastBit b.m b.q = b.q := by
  have hlowest := hb.lowest
  have hshort : b.m.log2 < 53 := (Nat.log2_lt hb.pos.ne').2 hb.short
  unfold lastBit
  rcases hb.full with hfull | hq
  · have hlog : 52 ≤ b.m.log2 := (Nat.le_log2 hb.pos.ne').2 hfull
    omega
  · omega

theorem lastBit_carry {q : ℤ} (hq : -1074 ≤ q) : lastBit (2 ^ 53) (q - 1) = q := by
  rw [lastBit, Nat.log2_two_pow]
  omega

/-- A number that is nearest to a double is rounded to it, from any mantissa that has at least its bits. -/
theorem roundWithAccuracy_nears (hb : b.Canonical) (hv : b.Nears v) {acc : Accuracy} (s : Sign)
    (hM : Describes (ExtendedMantissa.ofMantissaAndAccuracy M acc) (v / 2 ^ E)) (hE : E ≤ lastBit M E) :
    roundWithAccuracy .binary64 s M E acc = .finite s b.m b.q hb.pos := by
  obtain ⟨hlow, hhigh⟩ := hM.floor
  rw [ofMantissaAndAccuracy_mantissa] at hlow hhigh
  have hcut := cut_describes hM hE
  unfold roundWithAccuracy
  rw [shiftToTargetExponent_eq hE]
  obtain ⟨hv₁, hv₂⟩ := hv.ends
  rcases lastBit_cases hb hv hlow hhigh hE with hq | ⟨hq, hm, hlt⟩
  · rw [hq] at hcut ⊢
    have hround := hcut.rounded (n := b.m) (by linarith [b.gap_le]) hv₂ fun hodd => by
      unfold Binary.Nears at hv
      rw [if_neg (by omega)] at hv
      exact ⟨by linarith [hv.1, b.gap_le], hv.2⟩
    have hlast := lastBit_canonical hb
    simp only [hround, shiftToTargetExponent_eq hlast.ge, hlast, sub_self, Int.toNat_zero]
    exact dif_neg hb.pos.ne'
  · have hlast := lastBit_carry hb.lowest
    have hnarrow : b.gap = 1 / 4 := by
      have hbit : -1074 ≤ lastBit M E := le_max_right ..
      exact b.gap_of_narrow (hb.narrow_iff.2 ⟨hm, by omega⟩)
    have hdouble : v / 2 ^ lastBit M E = 2 * (v / 2 ^ b.q) := by
      rw [hq, zpow_sub_one₀ two_ne_zero]
      field_simp
    have hcarry : v / 2 ^ lastBit M E < 2 ^ 53 := by
      rw [div_lt_iff₀ (by positivity), mul_comm, ← zpow_natCast, ← zpow_add₀ two_ne_zero]
      exact_mod_cast hlt
    have hround := hcut.rounded (n := 2 ^ 53) (by rw [hdouble]; rw [hnarrow, hm] at hv₁; push_cast at hv₁ ⊢; linarith)
      (by push_cast; linarith) (by simp)
    rw [hq] at hround ⊢
    simp only [hround, shiftToTargetExponent_eq (show b.q - 1 ≤ lastBit (2 ^ 53) (b.q - 1) by omega), hlast,
      sub_sub_cancel]
    have hfinal : (ExtendedMantissa.ofMantissaAndAccuracy (2 ^ 53) .exact >>> (1 : ℤ).toNat).mantissa = b.m := hm.symm
    simp only [hfinal]
    exact dif_neg hb.pos.ne'

end

/-! ## Operations -/

section

variable {b : Binary} {v : ℚ} {m₁ m₂ : ℕ} {e₁ e₂ : ℤ}

theorem log2_shiftLeft {m : ℕ} (hm : m ≠ 0) (n : ℕ) : (m <<< n).log2 = m.log2 + n := by
  rw [Nat.shiftLeft_eq, mul_comm]
  induction n with
  | zero => simp
  | succ n ih => rw [pow_succ', mul_assoc, Nat.log2_two_mul (Nat.mul_ne_zero (by positivity) hm), ih, add_assoc]

theorem shiftLeft_value (m : ℕ) (e : ℤ) (n : ℕ) : ((m <<< n : ℕ) : ℚ) * 2 ^ (e - n) = m * 2 ^ e := by
  rw [Nat.shiftLeft_eq, zpow_sub₀ two_ne_zero, zpow_natCast]
  push_cast
  field_simp

/-- The whole part of a fraction, with how its rest compares to a half. -/
theorem describes_fraction (a : ℕ) {d : ℕ} (hd : 0 < d) :
    Describes (ExtendedMantissa.ofMantissaAndAccuracy (a / d) (accuracyOfFraction (a % d) d)) (a / d : ℚ) := by
  have hd' : (0 : ℚ) < d := by exact_mod_cast hd
  have hrest : ((a % d : ℕ) : ℚ) < d := by exact_mod_cast Nat.mod_lt a hd
  have hsplit : (a / d : ℚ) = (a / d : ℕ) + (a % d : ℕ) / (d : ℚ) := by
    rw [eq_comm, ← mul_left_inj' hd'.ne', add_mul, div_mul_cancel₀ _ hd'.ne', div_mul_cancel₀ _ hd'.ne']
    exact_mod_cast Nat.div_add_mod' a d
  rw [hsplit]
  unfold accuracyOfFraction
  split
  · rename_i hzero
    simp [hzero, describes_exact]
  · have hpos : (0 : ℚ) < (a % d : ℕ) / (d : ℚ) := by positivity
    have hone : ((a % d : ℕ) : ℚ) / d < 1 := by rwa [div_lt_one hd']
    rcases hcompare : compare (2 * (a % d)) d with _ | _ | _
    · have hlt : 2 * (a % d) < d := Nat.compare_eq_lt.1 hcompare
      have hhalf : ((a % d : ℕ) : ℚ) / d < 1 / 2 := by
        rw [div_lt_div_iff₀ hd' two_pos]
        exact_mod_cast (by omega : a % d * 2 < 1 * d)
      simpa [Describes, start, ExtendedMantissa.ofMantissaAndAccuracy] using And.intro hpos hhalf
    · have heq : 2 * (a % d) = d := Nat.compare_eq_eq.1 hcompare
      have hhalf : ((a % d : ℕ) : ℚ) / d = 1 / 2 := by
        rw [div_eq_div_iff hd'.ne' two_ne_zero]
        exact_mod_cast (by omega : a % d * 2 = 1 * d)
      rw [hhalf]
      rfl
    · have hgt : d < 2 * (a % d) := Nat.compare_eq_gt.1 hcompare
      have hhalf : 1 / 2 < ((a % d : ℕ) : ℚ) / d := by
        rw [div_lt_div_iff₀ two_pos hd']
        exact_mod_cast (by omega : 1 * d < a % d * 2)
      simpa [Describes, start, ExtendedMantissa.ofMantissaAndAccuracy, add_assoc, ← two_mul] using And.intro hhalf hone

/-- A quotient with a double nearest to it is that double. -/
theorem div_nears (hb : b.Canonical) (s₁ s₂ : Sign) (h₁ : 0 < m₁) (h₂ : 0 < m₂)
    (hv : b.Nears ((m₁ * 2 ^ e₁) / (m₂ * 2 ^ e₂))) :
    div .binary64 (.finite s₁ m₁ e₁ h₁) (.finite s₂ m₂ e₂ h₂) = .finite (s₁ / s₂) b.m b.q hb.pos := by
  -- the quotient is cut at the place `t`, behind the last bit that a double keeps of it
  obtain ⟨t, ht⟩ : ∃ t, t = min (e₁ - e₂) (max (m₁.log2 + 1 + e₁ - (m₂.log2 + 1 + e₂) - 53) (-1074)) := ⟨_, rfl⟩
  have hdiv : div .binary64 (.finite s₁ m₁ e₁ h₁) (.finite s₂ m₂ e₂ h₂) =
      roundWithAccuracy .binary64 (s₁ / s₂) (m₁ <<< (e₁ - e₂ - t).toNat / m₂) t
        (accuracyOfFraction (m₁ <<< (e₁ - e₂ - t).toNat % m₂) m₂) := by
    rw [ht]
    rfl
  have hshift : e₁ - ((e₁ - e₂ - t).toNat : ℤ) = t + e₂ := by omega
  have hfraction := describes_fraction (m₁ <<< (e₁ - e₂ - t).toNat) h₂
  have hvalue : ((m₁ <<< (e₁ - e₂ - t).toNat : ℕ) : ℚ) / m₂ = (m₁ * 2 ^ e₁) / (m₂ * 2 ^ e₂) / 2 ^ t := by
    rw [← shiftLeft_value m₁ e₁ (e₁ - e₂ - t).toNat, hshift, zpow_add₀ two_ne_zero]
    field_simp
  rw [hvalue] at hfraction
  rw [hdiv]
  refine roundWithAccuracy_nears hb hv _ hfraction ?_
  by_cases hlowest : t ≤ -1074
  · exact hlowest.trans (le_max_right ..)
  · have hn : m₂.log2 + 53 ≤ m₁.log2 + (e₁ - e₂ - t).toNat := by omega
    have hwide : 2 ^ 52 ≤ m₁ <<< (e₁ - e₂ - t).toNat / m₂ := by
      rw [Nat.le_div_iff_mul_le h₂, Nat.shiftLeft_eq]
      calc 2 ^ 52 * m₂ ≤ 2 ^ 52 * 2 ^ (m₂.log2 + 1) := Nat.mul_le_mul_left _ Nat.lt_log2_self.le
        _ = 2 ^ (m₂.log2 + 53) := by rw [← pow_add]; congr 1; omega
        _ ≤ 2 ^ (m₁.log2 + (e₁ - e₂ - t).toNat) := Nat.pow_le_pow_right two_pos hn
        _ ≤ m₁ * 2 ^ (e₁ - e₂ - t).toNat := by
          rw [pow_add]
          exact Nat.mul_le_mul_right _ (Nat.log2_self_le h₁.ne')
    have hlog : 52 ≤ (m₁ <<< (e₁ - e₂ - t).toNat / m₂).log2 :=
      (Nat.le_log2 (Nat.lt_of_lt_of_le (by positivity) hwide).ne').2 hwide
    unfold lastBit
    omega

/-- A product with a double nearest to it is that double. -/
theorem mul_nears (hb : b.Canonical) (s₁ s₂ : Sign) (h₁ : 0 < m₁) (h₂ : 0 < m₂) (hwide : 2 ^ 52 ≤ m₁ * m₂)
    (hv : b.Nears ((m₁ * 2 ^ e₁) * (m₂ * 2 ^ e₂))) :
    mul .binary64 (.finite s₁ m₁ e₁ h₁) (.finite s₂ m₂ e₂ h₂) = .finite (s₁ * s₂) b.m b.q hb.pos := by
  have hlog : 52 ≤ (m₁ * m₂).log2 := (Nat.le_log2 (Nat.mul_ne_zero h₁.ne' h₂.ne')).2 hwide
  have hvalue : (m₁ * 2 ^ e₁) * (m₂ * 2 ^ e₂) / 2 ^ (e₁ + e₂) = ((m₁ * m₂ : ℕ) : ℚ) := by
    rw [zpow_add₀ two_ne_zero]
    push_cast
    field_simp
  exact roundWithAccuracy_nears hb hv _ (hvalue ▸ describes_exact _) (by unfold lastBit; omega)

/-- A number with a double nearest to it is that double, however it is given. -/
theorem round_nears (hb : b.Canonical) (s : Sign) (h₁ : 0 < m₁) (hv : b.Nears (m₁ * 2 ^ e₁)) :
    round .binary64 s m₁ e₁ = .finite s b.m b.q hb.pos := by
  have hvalue : ((m₁ <<< (e₁ - lastBit m₁ e₁).toNat : ℕ) : ℚ) * _ = _ := shiftLeft_value m₁ e₁ _
  have hlast : lastBit (m₁ <<< (e₁ - lastBit m₁ e₁).toNat) (e₁ - (e₁ - lastBit m₁ e₁).toNat) = lastBit m₁ e₁ := by
    rw [lastBit, log2_shiftLeft h₁.ne', lastBit]
    push_cast
    congr 2
    ring
  have hexact := describes_exact (m₁ <<< (e₁ - lastBit m₁ e₁).toNat)
  rw [eq_div_of_mul_eq (by positivity) hvalue] at hexact
  have hwide : e₁ - (e₁ - lastBit m₁ e₁).toNat ≤ lastBit (m₁ <<< (e₁ - lastBit m₁ e₁).toNat) (e₁ - (e₁ - lastBit m₁ e₁).toNat) := by
    rw [hlast]
    omega
  exact roundWithAccuracy_nears hb hv s hexact hwide

end

end Rounding

end ActionSweep
