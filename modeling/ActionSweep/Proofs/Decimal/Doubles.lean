/-
Doubles by what they stand for: the bits of a double determine it, a finite one is a sign with a binary number of 53
bits, and there is one double only that is not a number.
-/
import ActionSweep.Decimal.Text
import ActionSweep.Proofs.Decimal.Rounding

namespace ActionSweep

open Float.Model Float.Model.UnpackedFloat

/-- The sign of a negative or a positive number. -/
def signOf (negative : Bool) : Sign := if negative then .negative else .positive

/-- The double of a sign and a binary number. -/
def Binary.double (b : Binary) (negative : Bool) (h : 0 < b.m) : Float :=
  .ofModel (.pack (.finite (signOf negative) b.m b.q h))

namespace Double

/-! ## Packing -/

theorem toBits_inj {x y : Float} (h : x.toBits.toNat = y.toBits.toNat) : x = y := by
  obtain ⟨⟨a, _⟩⟩ := x
  obtain ⟨⟨b, _⟩⟩ := y
  obtain rfl : a = b := UInt64.toNat_inj.1 h
  rfl

/-- What the sign adds to the bits of a double. -/
def signBit (negative : Bool) : ℕ := if negative then 2 ^ 63 else 0

theorem toNat_packComponents (negative : Bool) (e : BitVec 11) (f : BitVec 52) :
    (packComponents .binary64 (signOf negative) e f).toNat = signBit negative + e.toNat * 2 ^ 52 + f.toNat := by
  have hsign : (signOf negative).toBitVec.toNat * 2 ^ 63 = signBit negative := by cases negative <;> rfl
  unfold packComponents
  rw [BitVec.toNat_append, BitVec.toNat_append, ← Nat.shiftLeft_add_eq_or_of_lt f.isLt,
    ← Nat.shiftLeft_add_eq_or_of_lt e.isLt, Nat.shiftLeft_eq, Nat.shiftLeft_eq, ← hsign]
  ring

theorem sign_packComponents (s : Sign) (e : BitVec 11) (f : BitVec 52) :
    Sign.ofBitVec (unpackSign (packComponents .binary64 s e f)) = s := by
  simp only [unpackSign, packComponents, BitVec.extractLsb]
  rw [BitVec.extractLsb'_append_eq_of_le (by norm_num), BitVec.extractLsb'_append_eq_of_le (by norm_num)]
  cases s <;> rfl

variable {b : Binary}

theorem pack_finite (hb : b.Canonical) (s : Sign) : UnpackedFloat.pack .binary64 (.finite s b.m b.q hb.pos) =
    if b.m < 2 ^ 52 then packComponents .binary64 s 0 (BitVec.ofNat _ b.m)
    else packComponents .binary64 s (BitVec.ofNat _ (b.q + 1075).toNat) (BitVec.ofNat _ b.m) := by
  have hexponent : b.q + (Format.binary64.exponentBias : ℤ) + (52 : ℕ) = b.q + 1075 := by
    rw [show Format.binary64.exponentBias = 1023 from rfl]
    push_cast
    ring
  have hsmall : ¬ 2 ^ 11 ≤ (b.q + 1075).toNat + 1 := by
    have := hb.highest
    omega
  have hnormal : b.m.log2 + 1 = Format.mantissaBits .binary64 ↔ ¬ b.m < 2 ^ 52 := by
    have hshort : b.m.log2 < 53 := (Nat.log2_lt hb.pos.ne').2 hb.short
    rw [← Nat.log2_lt hb.pos.ne', show Format.mantissaBits .binary64 = 53 from rfl]
    omega
  simp only [UnpackedFloat.pack, hexponent, if_neg hsmall, hnormal, ite_not]
  rfl

theorem toBits_double (hb : b.Canonical) (negative : Bool) :
    (b.double negative hb.pos).toBits.toNat = signBit negative + (b.q + 1074).toNat * 2 ^ 52 + b.m := by
  show (UnpackedFloat.pack .binary64 (.finite (signOf negative) b.m b.q hb.pos)).toNat = _
  rw [pack_finite hb]
  have hlowest := hb.lowest
  have hhighest := hb.highest
  have hshort := hb.short
  have hfull := hb.full
  split
  · rw [toNat_packComponents, BitVec.toNat_ofNat, show (0 : BitVec 11).toNat = 0 from rfl]
    omega
  · rw [toNat_packComponents, BitVec.toNat_ofNat, BitVec.toNat_ofNat]
    omega

theorem unpack_double (hb : b.Canonical) (negative : Bool) :
    (b.double negative hb.pos).toModel.unpack = .finite (signOf negative) b.m b.q hb.pos := by
  show UnpackedFloat.unpack .binary64 (UnpackedFloat.pack .binary64 (.finite (signOf negative) b.m b.q hb.pos)) = _
  rw [pack_finite hb]
  split
  · rename_i hm
    have hq : b.q = -1074 := hb.full.resolve_left (by omega)
    have hfraction : (BitVec.ofNat 52 b.m).toNat = b.m := (BitVec.toNat_ofNat ..).trans (Nat.mod_eq_of_lt hm)
    have hne : BitVec.ofNat 52 b.m ≠ 0#52 := fun he => hb.pos.ne' (hfraction.symm.trans (congrArg BitVec.toNat he))
    simp only [UnpackedFloat.unpack, unpackMantissa_packComponents, unpackExponent_packComponents,
      sign_packComponents, dif_neg hne, hfraction, hq]
    rfl
  · rename_i hm
    have hlowest := hb.lowest
    have hhighest := hb.highest
    have hshort := hb.short
    have hexponent : (BitVec.ofNat 11 (b.q + 1075).toNat).toNat = (b.q + 1075).toNat :=
      (BitVec.toNat_ofNat ..).trans (Nat.mod_eq_of_lt (by omega))
    have hfirst : BitVec.ofNat 11 (b.q + 1075).toNat ≠ 0#11 := by
      intro he
      have hzero : (b.q + 1075).toNat = 0 := hexponent.symm.trans (congrArg BitVec.toNat he)
      omega
    have hlast : BitVec.ofNat 11 (b.q + 1075).toNat ≠ -1#11 := by
      intro he
      have hones : (b.q + 1075).toNat = 2047 := hexponent.symm.trans (congrArg BitVec.toNat he)
      omega
    have hfull : (1#1 ++ BitVec.ofNat 52 b.m).toNat = b.m := by
      rw [BitVec.toNat_append, ← Nat.shiftLeft_add_eq_or_of_lt (BitVec.isLt _)]
      show 1 <<< 52 + b.m % 2 ^ 52 = b.m
      omega
    have hq : ((b.q + 1075).toNat : ℤ) - (Format.binary64.exponentBias + (52 : ℕ)) = b.q := by
      rw [show Format.binary64.exponentBias = 1023 from rfl]
      omega
    simp only [UnpackedFloat.unpack, unpackMantissa_packComponents, unpackExponent_packComponents,
      sign_packComponents, if_neg hfirst, if_neg hlast, hexponent, hfull, hq]

theorem neg_double (hb : b.Canonical) : -b.double false hb.pos = b.double true hb.pos := by
  show Float.ofModel (.pack (Float.Model.unpack _).neg) = _
  rw [unpack_double hb]
  rfl

/-! ## Bits -/

theorem bits_split {n : ℕ} (hn : n < 2 ^ 64) :
    n = signBit (n / 2 ^ 63 % 2 = 1) + n / 2 ^ 52 % 2 ^ 11 * 2 ^ 52 + n % 2 ^ 52 := by
  unfold signBit
  split <;> rename_i h <;> simp at h <;> omega

theorem canonical_subnormal {f : ℕ} (hzero : f ≠ 0) (hf : f < 2 ^ 52) : Binary.Canonical ⟨f, -1074, false⟩ where
  pos := Nat.pos_of_ne_zero hzero
  short := hf.trans (by norm_num)
  lowest := le_rfl
  highest := by norm_num
  full := .inr rfl
  narrow_iff := by simp

theorem canonical_normal {e f : ℕ} (hzero : e ≠ 0) (he : e < 2047) (hf : f < 2 ^ 52) :
    Binary.Canonical ⟨2 ^ 52 + f, Int.ofNat e - 1075, f = 0 && e ≠ 1⟩ where
  pos := Nat.add_pos_left (by positivity) f
  short := by
    show 2 ^ 52 + f < 2 ^ 53
    omega
  lowest := by
    show -1074 ≤ (e : ℤ) - 1075
    omega
  highest := by
    show (e : ℤ) - 1075 ≤ 971
    omega
  full := .inl (Nat.le_add_right ..)
  narrow_iff := by
    show (f = 0 && e ≠ 1 : Bool) = true ↔ 2 ^ 52 + f = 2 ^ 52 ∧ (e : ℤ) - 1075 ≠ -1074
    rw [Bool.and_eq_true, decide_eq_true_eq, decide_eq_true_eq]
    omega

/-- The bits that a double is written with. -/
def HasBits (n : ℕ) : Double → Prop
  | .notANumber => n / 2 ^ 52 % 2 ^ 11 = 2047 ∧ n % 2 ^ 52 ≠ 0
  | .infinity negative => n = signBit negative + 2047 * 2 ^ 52
  | .zero negative => n = signBit negative
  | .finite negative b => b.Canonical ∧ n = signBit negative + (b.q + 1074).toNat * 2 ^ 52 + b.m

theorem hasBits_ofBits {n : ℕ} (hn : n < 2 ^ 64) : HasBits n (.ofBits n) := by
  have hsplit := bits_split hn
  have he : n / 2 ^ 52 % 2 ^ 11 < 2 ^ 11 := Nat.mod_lt _ (by norm_num)
  have hf : n % 2 ^ 52 < 2 ^ 52 := Nat.mod_lt _ (by norm_num)
  simp only [Double.ofBits, Nat.pow_eq]
  split
  · rename_i hlast
    split
    · rename_i hzero
      rwa [hlast, hzero] at hsplit
    · exact ⟨hlast, ‹_›⟩
  · rename_i hlast
    split
    · rename_i hfirst
      split
      · rename_i hzero
        rwa [hfirst, hzero, zero_mul] at hsplit
      · refine ⟨canonical_subnormal ‹_› hf, ?_⟩
        rwa [hfirst] at hsplit
    · refine ⟨canonical_normal ‹_› (by omega) hf, ?_⟩
      generalize n / 2 ^ 52 % 2 ^ 11 = e at *
      have hk : (Int.ofNat e - 1075 + 1074).toNat + 1 = e := by
        show ((e : ℤ) - 1075 + 1074).toNat + 1 = e
        omega
      have hshift : (Int.ofNat e - 1075 + 1074).toNat * 2 ^ 52 + 2 ^ 52 = e * 2 ^ 52 := by
        conv_rhs => rw [← hk, Nat.succ_mul]
      show n = _ + _ * 2 ^ 52 + (2 ^ 52 + _)
      rw [← add_assoc, add_assoc _ _ (2 ^ 52), hshift]
      exact hsplit

/-! ## Doubles by what they stand for -/

variable {x : Float}

theorem hasBits {d : Double} (h : Double.ofBits x.toBits.toNat = d) : HasBits x.toBits.toNat d :=
  h ▸ hasBits_ofBits x.toBits.toNat_lt

/-- Every finite double is that of its parts. -/
theorem eq_finite {negative : Bool} (h : Double.ofBits x.toBits.toNat = .finite negative b) :
    ∃ hb : b.Canonical, x = b.double negative hb.pos := by
  obtain ⟨hb, hbits⟩ := hasBits h
  exact ⟨hb, toBits_inj (hbits.trans (toBits_double hb negative).symm)⟩

theorem eq_zero {negative : Bool} (h : Double.ofBits x.toBits.toNat = .zero negative) :
    x = if negative then -0 else 0 := by
  refine toBits_inj (Eq.trans (hasBits h) ?_)
  cases negative <;> rfl

theorem eq_infinity {negative : Bool} (h : Double.ofBits x.toBits.toNat = .infinity negative) :
    x = if negative then -1.0 / 0.0 else 1.0 / 0.0 := by
  refine toBits_inj (Eq.trans (hasBits h) ?_)
  cases negative <;> rfl

theorem toNat_unpackExponent (bits : BitVec 64) :
    (@unpackExponent .binary64 bits).toNat = bits.toNat / 2 ^ 52 % 2 ^ 11 := by
  simp [unpackExponent, Nat.shiftRight_eq_div_pow]

theorem toNat_unpackMantissa (bits : BitVec 64) :
    (@unpackMantissa .binary64 bits).toNat = bits.toNat % 2 ^ 52 := by
  simp [unpackMantissa]

/-- There is one double that is not a number. -/
theorem eq_notANumber (h : Double.ofBits x.toBits.toNat = .notANumber) : x = 0.0 / 0.0 := by
  obtain ⟨⟨bits, hvalid⟩⟩ := x
  obtain ⟨hexponent, hmantissa⟩ := hasBits h
  have hbits : bits.toBitVec = packedNaN .binary64 := by
    refine hvalid.eq_packedNaN (BitVec.eq_of_toNat_eq ?_) fun hzero => hmantissa ?_
    · rw [toNat_unpackExponent]
      exact hexponent
    · exact (toNat_unpackMantissa _).symm.trans (congrArg BitVec.toNat hzero)
  refine toBits_inj (Eq.trans (congrArg BitVec.toNat hbits) ?_)
  rfl

end Double

end ActionSweep
