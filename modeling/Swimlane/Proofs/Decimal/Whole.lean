/-
  Swimlane — whole numbers in single precision.

  A number of 32 bits has 24 binary digits.  Whole numbers with no more digits are kept as
  they are, and so are their sums, differences and products, as long as these have no more
  digits either.

  * `Floating.value?`: the rational number for which a floating-point number stands.
  * `unpacked n`: how a whole number is kept.  `roundWithAccuracy_eq`, `round_eq`: whatever
    it was computed from, it is kept this way.
  * `whole n`: a whole number of 32 bits.  `whole_add`, `whole_sub`, `whole_mul`,
    `whole_half`: operations that do not round; `ofNat_eq_whole`: neither do numerals.
  * `value?_whole`: a whole number stands for itself.
-/
import Mathlib
import Swimlane.Decimal.Binary

namespace Swimlane.Decimal

/-- The number for which a floating-point number stands, if it is one. -/
def Floating.value? (f : Floating) : Option ℚ :=
  match f.magnitude with
  | .finite b => some ((if f.negative then -1 else 1) * (b.mantissa * (2 : ℚ) ^ b.exponent))
  | _ => none

end Swimlane.Decimal

namespace Swimlane.Whole

open Float.Model (Format UnpackedFloat totalExponent)
open Float.Model.UnpackedFloat

/-! ## Rounding -/

/-- How a whole number of at most 24 digits is kept: with zeros behind it, so that it has
    24 digits. -/
def unpacked (n : ℕ) : UnpackedFloat :=
  if h : n = 0 then .zero .positive
  else .finite .positive (n * 2 ^ (23 - n.log2)) (n.log2 - 23)
    (Nat.mul_pos (Nat.pos_of_ne_zero h) (Nat.two_pow_pos _))

theorem unpacked_zero : unpacked 0 = .zero .positive := rfl

theorem unpacked_of_pos {n : ℕ} (h : 0 < n) : unpacked n =
    .finite .positive (n * 2 ^ (23 - n.log2)) (n.log2 - 23)
      (Nat.mul_pos h (Nat.two_pow_pos _)) :=
  dif_neg h.ne'

theorem log2_le {n : ℕ} (h : 0 < n) (hn : n < 2 ^ 24) : n.log2 ≤ 23 :=
  Nat.le_of_lt_succ ((Nat.log2_lt h.ne').2 hn)

theorem log2_mul_pow {n : ℕ} (h : 0 < n) (k : ℕ) : (n * 2 ^ k).log2 = n.log2 + k := by
  have hpos : 0 < n * 2 ^ k := Nat.mul_pos h (Nat.two_pow_pos k)
  rw [Nat.log2_eq_iff hpos.ne', Nat.pow_add, Nat.add_right_comm, Nat.pow_add]
  exact ⟨Nat.mul_le_mul_right _ (Nat.log2_self_le h.ne'),
    Nat.mul_lt_mul_of_pos_right Nat.lt_log2_self (Nat.two_pow_pos k)⟩

/-- Digits that are zero can be dropped. -/
theorem shiftRight_mul_pow (m k : ℕ) :
    ExtendedMantissa.mk (m * 2 ^ k) false false >>> k = ExtendedMantissa.mk m false false := by
  induction k generalizing m with
  | zero => rw [Nat.pow_zero, Nat.mul_one]; rfl
  | succ k ih =>
    have hstep : m * 2 ^ (k + 1) = m * 2 * 2 ^ k := by ring
    change (ExtendedMantissa.mk (m * 2 ^ (k + 1)) false false >>> k).shiftRightOne = _
    rw [hstep, ih]
    simp [ExtendedMantissa.shiftRightOne]

theorem targetExponent_eq (t : ℤ) : Format.binary32.targetExponent t = max (t - 24) (-149) := rfl

/-- Shifting to an exponent with zeros behind it drops these zeros. -/
theorem shiftToTargetExponent_eq {m k : ℕ} {e : ℤ}
    (h : (max (totalExponent (m * 2 ^ k) e - 24) (-149) - e).toNat = k) :
    shiftToTargetExponent .binary32 (m * 2 ^ k) e .exact = (⟨m, false, false⟩, e + k) := by
  rw [shiftToTargetExponent, targetExponent_eq, shiftToExponent, h]
  exact congrArg (·, e + (k : ℤ)) (shiftRight_mul_pow m k)

/-- Rounding only drops zeros behind the 24 digits. -/
theorem roundWithAccuracy_eq {n m : ℕ} {e : ℤ} (h : 0 < n) (hn : n < 2 ^ 24)
    (he : e ≤ n.log2 - 23) (hm : m = n * 2 ^ (-e).toNat) :
    roundWithAccuracy .binary32 .positive m e .exact = unpacked n := by
  have hlog := log2_le h hn
  have hpos : 0 < n * 2 ^ (23 - n.log2) := Nat.mul_pos h (Nat.two_pow_pos _)
  have hdigits : (n * 2 ^ (23 - n.log2)).log2 = 23 := by
    rw [log2_mul_pow h]
    omega
  -- the first shift drops the zeros behind the 24 digits, the second one has nothing to do
  obtain ⟨k, hk⟩ : ∃ k : ℕ, e + k = n.log2 - 23 := ⟨(n.log2 - 23 - e).toNat, by omega⟩
  have hsplit : m = n * 2 ^ (23 - n.log2) * 2 ^ k := by
    rw [hm, Nat.mul_assoc, ← Nat.pow_add]
    congr 2
    omega
  have hfirst : shiftToTargetExponent .binary32 m e .exact =
      (ExtendedMantissa.mk (n * 2 ^ (23 - n.log2)) false false, (n.log2 : ℤ) - 23) := by
    rw [hsplit, shiftToTargetExponent_eq, hk]
    rw [totalExponent, log2_mul_pow hpos, hdigits]
    omega
  have hsecond : shiftToTargetExponent .binary32 (n * 2 ^ (23 - n.log2)) (n.log2 - 23) .exact =
      (ExtendedMantissa.mk (n * 2 ^ (23 - n.log2)) false false, (n.log2 : ℤ) - 23) := by
    have hshift := shiftToTargetExponent_eq (m := n * 2 ^ (23 - n.log2)) (k := 0)
      (e := n.log2 - 23)
    rw [Nat.pow_zero, Nat.mul_one, Nat.cast_zero, add_zero] at hshift
    apply hshift
    rw [totalExponent, hdigits]
    omega
  rw [roundWithAccuracy, hfirst]
  dsimp only [ExtendedMantissa.roundedMantissa, ExtendedMantissa.accuracy,
    Accuracy.roundToNearestEven]
  simp only [hsecond, hpos.ne', dite_false, unpacked_of_pos h]

/-- **A whole number is kept as it is**, in whatever units it was computed. -/
theorem round_eq {n m : ℕ} {e : ℤ} (h : 0 < n) (hn : n < 2 ^ 24) (he : e ≤ 0)
    (hm : m = n * 2 ^ (-e).toNat) : UnpackedFloat.round .binary32 .positive m e = unpacked n := by
  have hlog := log2_le h hn
  have htarget : Format.binary32.targetExponent (totalExponent m e) = n.log2 - 23 := by
    rw [targetExponent_eq, totalExponent, hm, log2_mul_pow h]
    omega
  rw [UnpackedFloat.round, htarget, decreaseExponent]
  dsimp only
  apply roundWithAccuracy_eq h hn
  · omega
  · rw [hm, Nat.shiftLeft_eq, Nat.mul_assoc, ← Nat.pow_add]
    congr 2
    omega

theorem normalize_eq {n m : ℕ} {e : ℤ} (hn : n < 2 ^ 24) (he : e ≤ 0)
    (hm : m = n * 2 ^ (-e).toNat) :
    UnpackedFloat.normalize .binary32 m e .positive = unpacked n := by
  rcases Nat.eq_zero_or_pos n with rfl | h
  · rw [hm, Nat.zero_mul]
    rfl
  · have hpos : 0 < m := hm ▸ Nat.mul_pos h (Nat.two_pow_pos _)
    have hcompare : compare (m : ℤ) 0 = .gt := Int.compare_eq_gt.2 (by exact_mod_cast hpos)
    rw [UnpackedFloat.normalize, hcompare]
    exact round_eq h hn he hm

/-! ## Operations on kept numbers -/

section
variable {a b : ℕ}

/-- A number in units that are not greater than its own. -/
theorem decreaseExponent_eq {n : ℕ} {e : ℤ} (h : 0 < n) (hn : n < 2 ^ 24)
    (he : e ≤ n.log2 - 23) :
    (decreaseExponent (n * 2 ^ (23 - n.log2)) (n.log2 - 23) e).1 = n * 2 ^ (-e).toNat := by
  have hlog := log2_le h hn
  rw [decreaseExponent]
  dsimp only
  rw [Nat.shiftLeft_eq, Nat.mul_assoc, ← Nat.pow_add]
  congr 2
  omega

theorem add_unpacked (h : a + b < 2 ^ 24) :
    UnpackedFloat.add .binary32 (unpacked a) (unpacked b) = unpacked (a + b) := by
  rcases Nat.eq_zero_or_pos a with rfl | ha
  · rw [Nat.zero_add]
    rcases Nat.eq_zero_or_pos b with rfl | hb
    · rfl
    · rw [unpacked_zero, unpacked_of_pos hb]
      rfl
  rcases Nat.eq_zero_or_pos b with rfl | hb
  · rw [Nat.add_zero, unpacked_zero, unpacked_of_pos ha]
    rfl
  have hloga := log2_le ha (by omega)
  have hlogb := log2_le hb (by omega)
  rw [unpacked_of_pos ha, unpacked_of_pos hb, UnpackedFloat.add]
  dsimp only [Sign.apply]
  rw [decreaseExponent_eq ha (by omega) (min_le_left ..),
    decreaseExponent_eq hb (by omega) (min_le_right ..), ← Nat.cast_add]
  exact normalize_eq h (by omega) (Nat.add_mul ..).symm

theorem sub_unpacked (hle : b ≤ a) (h : a < 2 ^ 24) :
    UnpackedFloat.sub .binary32 (unpacked a) (unpacked b) = unpacked (a - b) := by
  rcases Nat.eq_zero_or_pos b with rfl | hb
  · rw [Nat.sub_zero]
    rcases Nat.eq_zero_or_pos a with rfl | ha
    · rfl
    · rw [unpacked_zero, unpacked_of_pos ha]
      rfl
  have ha : 0 < a := by omega
  have hloga := log2_le ha h
  have hlogb := log2_le hb (by omega)
  rw [unpacked_of_pos ha, unpacked_of_pos hb, UnpackedFloat.sub]
  dsimp only [Sign.apply]
  rw [decreaseExponent_eq ha h (min_le_left ..),
    decreaseExponent_eq hb (by omega) (min_le_right ..),
    ← Nat.cast_sub (Nat.mul_le_mul_right _ hle)]
  exact normalize_eq (by omega) (by omega) (Nat.sub_mul ..).symm

theorem mul_unpacked (ha : a < 2 ^ 24) (hb : b < 2 ^ 24) (h : a * b < 2 ^ 24) :
    UnpackedFloat.mul .binary32 (unpacked a) (unpacked b) = unpacked (a * b) := by
  rcases Nat.eq_zero_or_pos a with rfl | ha0
  · rw [Nat.zero_mul, unpacked_zero]
    rcases Nat.eq_zero_or_pos b with rfl | hb0
    · rfl
    · rw [unpacked_of_pos hb0]
      rfl
  rcases Nat.eq_zero_or_pos b with rfl | hb0
  · rw [Nat.mul_zero, unpacked_zero, unpacked_of_pos ha0]
    rfl
  have hloga := log2_le ha0 ha
  have hlogb := log2_le hb0 hb
  have hpos : 0 < a * b := Nat.mul_pos ha0 hb0
  have hlog : a.log2 + b.log2 ≤ (a * b).log2 := by
    rw [Nat.le_log2 hpos.ne', Nat.pow_add]
    exact Nat.mul_le_mul (Nat.log2_self_le ha0.ne') (Nat.log2_self_le hb0.ne')
  rw [unpacked_of_pos ha0, unpacked_of_pos hb0, UnpackedFloat.mul]
  apply roundWithAccuracy_eq hpos h
  · omega
  · rw [Nat.mul_mul_mul_comm, ← Nat.pow_add]
    congr 2
    omega

theorem half_unpacked (h : 2 * a < 2 ^ 24) :
    UnpackedFloat.div .binary32 (unpacked (2 * a)) (unpacked 2) = unpacked a := by
  rcases Nat.eq_zero_or_pos a with rfl | ha
  · rfl
  have hlog := log2_le ha (by omega)
  have hlog' : (2 * a).log2 = a.log2 + 1 := Nat.log2_two_mul ha.ne'
  have hle := log2_le (by omega) h
  have htwo : Nat.log2 2 = 1 := by decide
  -- the quotient has one digit more than it needs, and this digit is zero
  have hmantissa : (2 * a * 2 ^ (23 - (2 * a).log2)) <<< 24 =
      a * 2 ^ (24 - a.log2) * (2 * 2 ^ (23 - Nat.log2 2)) := by
    have hpow : 2 ^ (23 - (2 * a).log2) * 2 ^ 24 = 2 ^ (24 - a.log2) * 2 ^ (23 - Nat.log2 2) := by
      rw [← Nat.pow_add, ← Nat.pow_add]
      congr 1
      omega
    rw [Nat.shiftLeft_eq, Nat.mul_assoc, hpow]
    ring
  have hcore : divCore .binary32 (2 * a * 2 ^ (23 - (2 * a).log2)) ((2 * a).log2 - 23)
      (2 * 2 ^ (23 - Nat.log2 2)) (Nat.log2 2 - 23) =
      (a * 2 ^ (24 - a.log2), (a.log2 : ℤ) - 24, Accuracy.exact) := by
    have htarget : min (((2 * a).log2 : ℤ) - 23 - (Nat.log2 2 - 23))
        (Format.binary32.targetExponent
          (totalExponent (2 * a * 2 ^ (23 - (2 * a).log2)) ((2 * a).log2 - 23) -
            totalExponent (2 * 2 ^ (23 - Nat.log2 2)) (Nat.log2 2 - 23))) = a.log2 - 24 := by
      rw [targetExponent_eq, totalExponent, totalExponent, log2_mul_pow (by omega),
        log2_mul_pow Nat.two_pos]
      omega
    have hshift : (((2 * a).log2 : ℤ) - 23 - (Nat.log2 2 - 23) - (a.log2 - 24)).toNat = 24 := by
      omega
    rw [divCore, htarget, hshift, hmantissa]
    rw [Nat.mul_div_cancel _ (by positivity), Nat.mul_mod_left, accuracyOfFraction, if_pos rfl]
  rw [unpacked_of_pos (by omega), unpacked_of_pos Nat.two_pos, UnpackedFloat.div, hcore]
  change roundWithAccuracy .binary32 .positive (a * 2 ^ (24 - a.log2)) (a.log2 - 24) .exact = _
  apply roundWithAccuracy_eq ha (by omega)
  · omega
  · have hexponent : (-((a.log2 : ℤ) - 24)).toNat = 24 - a.log2 := by omega
    rw [hexponent]

end

/-! ## Packing -/

section
variable {n : ℕ}

/-- The first digit is one. -/
theorem mantissa_bounds (h : 0 < n) (hn : n < 2 ^ 24) :
    2 ^ 23 ≤ n * 2 ^ (23 - n.log2) ∧ n * 2 ^ (23 - n.log2) < 2 ^ 24 := by
  have hlog := log2_le h hn
  have hpos : 0 < n * 2 ^ (23 - n.log2) := Nat.mul_pos h (Nat.two_pow_pos _)
  rw [← Nat.log2_eq_iff hpos.ne', log2_mul_pow h]
  omega

/-- The fields of a packed number: the exponent, and the digits but the first one. -/
theorem pack_unpacked (h : 0 < n) (hn : n < 2 ^ 24) : pack .binary32 (unpacked n) =
    packComponents .binary32 .positive (.ofNat 8 (n.log2 + 127))
      (.ofNat 23 (n * 2 ^ (23 - n.log2))) := by
  have hlog := log2_le h hn
  have hbiased : ((n.log2 : ℤ) - 23 + (Format.binary32.exponentBias : ℕ) +
      (Format.binary32.mantissaBitsWithoutImplicit : ℕ)).toNat = n.log2 + 127 := by
    change ((n.log2 : ℤ) - 23 + 127 + 23).toNat = _
    omega
  have hdigits : (n * 2 ^ (23 - n.log2)).log2 + 1 = Format.binary32.mantissaBits := by
    rw [log2_mul_pow h]
    change _ = 24
    omega
  have hfinite : ¬ 2 ^ Format.binary32.exponentBits ≤ n.log2 + 127 + 1 := by
    change ¬ 256 ≤ _
    omega
  rw [unpacked_of_pos h, pack]
  dsimp only
  rw [hbiased, if_neg hfinite, if_pos hdigits]

theorem unpack_pack (hn : n < 2 ^ 24) :
    unpack .binary32 (pack .binary32 (unpacked n)) = unpacked n := by
  rcases Nat.eq_zero_or_pos n with rfl | h
  · rfl
  have hlog := log2_le h hn
  obtain ⟨hlow, hhigh⟩ := mantissa_bounds h hn
  have hexponent : (BitVec.ofNat 8 (n.log2 + 127)).toNat = n.log2 + 127 := by
    rw [BitVec.toNat_ofNat]
    omega
  have hfinite : BitVec.ofNat 8 (n.log2 + 127) ≠ -1#8 := by
    intro heq
    have hones : (-1#8).toNat = 255 := by decide
    rw [heq, hones] at hexponent
    omega
  have hnormal : BitVec.ofNat 8 (n.log2 + 127) ≠ 0#8 := by
    intro heq
    rw [heq, BitVec.toNat_zero] at hexponent
    omega
  have hmantissa : (1#1 ++ BitVec.ofNat 23 (n * 2 ^ (23 - n.log2))).toNat =
      n * 2 ^ (23 - n.log2) := by
    rw [BitVec.toNat_append, ← Nat.shiftLeft_add_eq_or_of_lt (BitVec.isLt _), BitVec.toNat_ofNat,
      Nat.shiftLeft_eq]
    change 1 * 2 ^ 23 + _ % 2 ^ 23 = _
    omega
  rw [pack_unpacked h hn, unpack]
  simp only [unpackMantissa_packComponents, unpackExponent_packComponents,
    unpackSign_packComponents, hfinite, hnormal, if_false]
  have hbiased : ((BitVec.ofNat 8 (n.log2 + 127)).toNat : ℤ) -
      ((Format.binary32.exponentBias : ℕ) + (23 : ℕ)) = n.log2 - 23 := by
    rw [hexponent]
    change ((n.log2 + 127 : ℕ) : ℤ) - (127 + 23) = _
    omega
  simp only [hmantissa, hbiased, unpacked_of_pos h]
  rfl

end

/-! ## Numbers of 32 bits -/

/-- A whole number of at most 24 digits. -/
def whole (n : ℕ) : Float32 := .ofModel (.pack (unpacked n))

section
variable {a b n : ℕ}

theorem unpack_whole (hn : n < 2 ^ 24) : (whole n).toModel.unpack = unpacked n := unpack_pack hn

theorem whole_add (h : a + b < 2 ^ 24) : whole a + whole b = whole (a + b) := by
  have hadd := add_unpacked h
  rw [← unpack_whole (n := a) (by omega), ← unpack_whole (n := b) (by omega)] at hadd
  exact congrArg (fun u => Float32.ofModel (.pack u)) hadd

theorem whole_sub (hle : b ≤ a) (h : a < 2 ^ 24) : whole a - whole b = whole (a - b) := by
  have hsub := sub_unpacked hle h
  rw [← unpack_whole h, ← unpack_whole (hle.trans_lt h)] at hsub
  exact congrArg (fun u => Float32.ofModel (.pack u)) hsub

theorem whole_mul (ha : a < 2 ^ 24) (hb : b < 2 ^ 24) (h : a * b < 2 ^ 24) :
    whole a * whole b = whole (a * b) := by
  have hmul := mul_unpacked ha hb h
  rw [← unpack_whole ha, ← unpack_whole hb] at hmul
  exact congrArg (fun u => Float32.ofModel (.pack u)) hmul

theorem whole_half (h : 2 * a < 2 ^ 24) : whole (2 * a) / whole 2 = whole a := by
  have hhalf := half_unpacked h
  rw [← unpack_whole h, ← unpack_whole (by omega : 2 < 2 ^ 24)] at hhalf
  exact congrArg (fun u => Float32.ofModel (.pack u)) hhalf

/-- A numeral below `2 ^ 23` is read without rounding. -/
theorem ofNat_eq_whole (hn : n < 2 ^ 23) : Float32.ofNat n = whole n := by
  have hone : Float32.exactlyRepresentablePowersOfTen[0] = whole 1 := by decide +kernel
  have hnormal : UnpackedFloat.ofUInt64 .binary32 n.toUInt64 = unpacked n := by
    have hn64 : n.toUInt64.toNat = n := Nat.mod_eq_of_lt (by omega)
    rw [ofUInt64, hn64]
    exact normalize_eq (by omega) le_rfl (by simp)
  have hconvert : n.toUInt64.toFloat32 = whole n :=
    congrArg (fun u => Float32.ofModel (.pack u)) hnormal
  change Float32.ofScientific n false 0 = _
  rw [Float32.ofScientific, dif_pos ⟨hn, by decide⟩]
  dsimp only
  rw [if_neg (by decide), hconvert, hone, whole_mul (by omega) (by omega) (by omega), Nat.mul_one]

/-- A number that is neither very small nor very large, by the fields of its bits. -/
theorem decode_single {b e f : ℕ} (he : 0 < e ∧ e < 255) (hlow : b % 2 ^ 23 = f)
    (hmiddle : b / 2 ^ 23 % 2 ^ 8 = e) (hhigh : b / 2 ^ (23 + 8) % 2 = 0) :
    (Decimal.Format.single.decode b).value? =
      some ((2 ^ 23 + f : ℕ) * (2 : ℚ) ^ ((e : ℤ) - 150)) := by
  have hfinite : ¬ e + 1 = 2 ^ 8 := by omega
  have hunits : (2 - (2 ^ (8 - 1) : ℕ) - (23 : ℕ) + (e - 1 : ℕ) : ℤ) = e - 150 := by
    norm_num only
    omega
  simp only [Decimal.Format.decode, Decimal.Format.single, Nat.pow_eq, hlow, hmiddle, hhigh,
    he.1.ne', hfinite, if_false, hunits, Decimal.Floating.value?]
  rw [if_neg (by decide), one_mul]

/-- The bits of a number are its exponent and its digits but the first one. -/
theorem toNat_toBits_whole (h : 0 < n) (hn : n < 2 ^ 24) : (whole n).toBits.toNat =
    (n.log2 + 127) * 2 ^ 23 + (n * 2 ^ (23 - n.log2) - 2 ^ 23) := by
  have hlog := log2_le h hn
  obtain ⟨hlow, hhigh⟩ := mantissa_bounds h hn
  change (pack .binary32 (unpacked n)).toNat = _
  rw [pack_unpacked h hn, packComponents, BitVec.toNat_append,
    ← Nat.shiftLeft_add_eq_or_of_lt (BitVec.isLt _), BitVec.toNat_append,
    ← Nat.shiftLeft_add_eq_or_of_lt (BitVec.isLt _), BitVec.toNat_ofNat, BitVec.toNat_ofNat,
    Nat.shiftLeft_eq, Nat.shiftLeft_eq]
  change (0 * 2 ^ 8 + _ % 2 ^ 8) * 2 ^ 23 + _ % 2 ^ 23 = _
  omega

/-- **A whole number stands for itself.** -/
theorem value?_whole (hn : n < 2 ^ 24) :
    (Decimal.Floating.ofFloat32 (whole n)).value? = some n := by
  rcases Nat.eq_zero_or_pos n with rfl | h
  · decide +kernel
  have hlog := log2_le h hn
  have hbits := toNat_toBits_whole h hn
  obtain ⟨f, hf⟩ := Nat.exists_eq_add_of_le (mantissa_bounds h hn).1
  have hfraction := hf ▸ (mantissa_bounds h hn).2
  rw [hf, Nat.add_sub_cancel_left] at hbits
  have hvalue : ((n * 2 ^ (23 - n.log2) : ℕ) : ℚ) * (2 : ℚ) ^ ((n.log2 : ℤ) - 23) = n := by
    have hexponent : ((n.log2 : ℤ) - 23) = -((23 - n.log2 : ℕ) : ℤ) := by omega
    rw [hexponent, zpow_neg, zpow_natCast, Nat.cast_mul, Nat.cast_pow, Nat.cast_ofNat, mul_assoc,
      mul_inv_cancel₀ (by positivity), mul_one]
  have hunits : ((n.log2 + 127 : ℕ) : ℤ) - 150 = n.log2 - 23 := by omega
  have hdecode := decode_single (b := (whole n).toBits.toNat) (e := n.log2 + 127) (f := f)
    (by omega) (by omega) (by omega) (by omega)
  rw [hunits, ← hf, hvalue] at hdecode
  exact hdecode

end

end Swimlane.Whole
