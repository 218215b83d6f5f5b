import Mathlib
import SourceRecipe.Proofs.Number.Floats
import SourceRecipe.Proofs.Number.Rounding

/-!
# Arithmetic of floats

The float of a whole number is the nearest one, and so is the quotient of two positive floats to
the quotient of their values.  Whole numbers below `2 ^ 53` and powers of ten up to the 22nd are
values of floats, so that a decimal made of both is read with one rounding.
-/

namespace SourceRecipe.Binary64

open Float.Model (Format totalExponent)
open Float.Model.UnpackedFloat

/-- A float with known bits. -/
theorem ofModel_pack {f : Float.Model.UnpackedFloat} {bits : ℕ}
    (packed : (pack .binary64 f).toNat = bits) :
    Float.ofModel (.pack f) = ofMagnitude false bits := by
  have whole : (Float.ofModel (.pack f)).toBits.toNat = bits := packed
  rw [← Float.ofBits_toBits (Float.ofModel (.pack f)), ofMagnitude, if_neg Bool.false_ne_true,
    ← whole, UInt64.ofNat_toNat]

/-! ## Floats of whole numbers -/

/-- A whole number is brought to the exponent of its units before it is rounded. -/
theorem toNat_pack_round {m : ℕ} (some : 0 < m) :
    (pack .binary64 (Float.Model.UnpackedFloat.round .binary64 .positive m 0)).toNat =
      nearestTo m := by
  have positive : (0 : ℚ) < m := Nat.cast_pos.mpr some
  have target : Format.binary64.targetExponent (totalExponent m 0) = unitExponent m := by
    rw [targetExponent_eq, totalExponent, unitExponent, Int.log_natCast, Nat.log2_eq_log_two]
    omega
  rw [Float.Model.UnpackedFloat.round, target, decreaseExponent]
  refine toNat_pack_roundWithAccuracy positive ?_ (by omega)
  have exact := represents_exact (m <<< (0 - unitExponent (m : ℚ)).toNat)
  rw [Nat.shiftLeft_eq, Nat.cast_mul, Nat.cast_pow, Nat.cast_ofNat] at exact
  rw [Nat.shiftLeft_eq, zero_sub ((0 - unitExponent (m : ℚ)).toNat : ℤ), zpow_neg,
    div_inv_eq_mul, zpow_natCast]
  exact exact

/-- The float of a whole number is the nearest one. -/
theorem toFloat_eq (n : UInt64) : n.toFloat = ofMagnitude false (nearestTo n.toNat) := by
  apply ofModel_pack
  change (pack .binary64
    (Float.Model.UnpackedFloat.normalize .binary64 (n.toNat : ℤ) 0 .positive)).toNat = _
  rcases Nat.eq_zero_or_pos n.toNat with none | some
  · rw [none, Nat.cast_zero, Nat.cast_zero, nearestTo_zero]
    rfl
  · have order : compare (n.toNat : ℤ) 0 = .gt :=
      compare_gt_iff_gt.mpr (Int.natCast_pos.mpr some)
    rw [Float.Model.UnpackedFloat.normalize, order]
    exact toNat_pack_round some

/-! ## Quotients -/

structure IsPositive (x : Float) : Prop where
  plain : isNegative x = false
  some : magnitude x ≠ 0
  finite : magnitude x < infinity

namespace IsPositive

variable {x : Float}

theorem sign_eq (positive : IsPositive x) :
    Sign.ofBitVec (@unpackSign .binary64 x.toBits.toBitVec) = .positive := by
  have bound := of_decide_eq_false positive.plain
  have sign : (@unpackSign .binary64 x.toBits.toBitVec).toNat = 0 := by
    rw [unpackSign_def, BitVec.extractLsb'_toNat, Nat.shiftRight_eq_div_pow]
    change x.toBits.toNat / 2 ^ 63 % 2 ^ 1 = 0
    change ¬ 2 ^ 63 ≤ x.toBits.toNat at bound
    omega
  rw [Sign.ofBitVec, if_pos (BitVec.eq_of_toNat_eq sign)]

/-- A positive float is taken apart as its bits are decoded. -/
theorem unpack_eq (positive : IsPositive x) :
    ∃ some, x.toModel.unpack =
      .finite .positive (decode (magnitude x)).1 (decode (magnitude x)).2 some := by
  have exponent := toNat_unpackExponent x
  have mantissa := toNat_unpackMantissa x
  have plain : @unpackExponent .binary64 x.toBits.toBitVec ≠ -1#11 := fun ones =>
    absurd positive.finite (not_lt.mpr ((unpackExponent_eq_ones_iff x).mp ones))
  change ∃ some, unpack .binary64 x.toBits.toBitVec = _
  unfold unpack
  dsimp only
  rw [if_neg plain, positive.sign_eq]
  by_cases small : magnitude x / 2 ^ 52 = 0
  · have fraction : magnitude x % 2 ^ 52 ≠ 0 := by
      have some := positive.some
      omega
    have none : @unpackExponent .binary64 x.toBits.toBitVec = 0#11 :=
      BitVec.eq_of_toNat_eq (exponent.trans small)
    have decoded : decode (magnitude x) = (magnitude x % 2 ^ 52, leastExponent) := if_pos small
    have some : @unpackMantissa .binary64 x.toBits.toBitVec ≠ 0#52 := fun zero =>
      fraction ((unpackMantissa_eq_zero_iff x).mp zero)
    rw [decoded, if_pos none, dif_neg some, none]
    refine ⟨Nat.pos_of_ne_zero fraction, ?_⟩
    congr 1
  · have normal : @unpackExponent .binary64 x.toBits.toBitVec ≠ 0#11 := fun none =>
      small (exponent.symm.trans (congrArg BitVec.toNat none))
    have decoded : decode (magnitude x) = (magnitude x % 2 ^ 52 + 2 ^ 52,
      (magnitude x / 2 ^ 52 : ℕ) + leastExponent - 1) := if_neg small
    rw [decoded, if_neg normal]
    refine ⟨by positivity, ?_⟩
    congr 1
    · change (1#1 ++ @unpackMantissa .binary64 x.toBits.toBitVec).toNat = _
      rw [BitVec.toNat_append, ← Nat.shiftLeft_add_eq_or_of_lt (BitVec.isLt _), mantissa]
      exact Nat.add_comm _ _
    · change ((@unpackExponent .binary64 x.toBits.toBitVec).toNat : ℤ) - (1023 + 52) = _
      rw [exponent, leastExponent]
      omega

end IsPositive

/-- The units of a quotient are at least as fine as those that the operands let expect. -/
theorem le_unitExponent_div {m₁ m₂ : ℕ} (q₁ q₂ : ℤ) (some₁ : 0 < m₁) (some₂ : 0 < m₂) :
    Format.binary64.targetExponent (totalExponent m₁ q₁ - totalExponent m₂ q₂) ≤
      unitExponent (m₁ * 2 ^ q₁ / (m₂ * 2 ^ q₂)) := by
  have above : (0 : ℚ) < m₂ := Nat.cast_pos.mpr some₂
  have quotient : (0 : ℚ) < m₁ / m₂ := div_pos (Nat.cast_pos.mpr some₁) above
  have shape : (m₁ : ℚ) * 2 ^ q₁ / (m₂ * 2 ^ q₂) = m₁ / m₂ * 2 ^ (q₁ - q₂) := by
    rw [zpow_sub₀ two_ne_zero, div_mul_div_comm]
  have low := (log_div_bounds some₁ some₂).1
  rw [targetExponent_eq, unitExponent, shape, log_mul_zpow quotient, totalExponent, totalExponent]
  omega

/-- The quotient of two mantissas is taken with bits enough to round it. -/
theorem toNat_pack_div {m₁ m₂ : ℕ} (q₁ q₂ : ℤ) (some₁ : 0 < m₁) (some₂ : 0 < m₂) :
    (pack .binary64 (Float.Model.UnpackedFloat.div .binary64 (.finite .positive m₁ q₁ some₁)
      (.finite .positive m₂ q₂ some₂))).toNat = nearestTo (m₁ * 2 ^ q₁ / (m₂ * 2 ^ q₂)) := by
  have above : (0 : ℚ) < m₂ := Nat.cast_pos.mpr some₂
  have positive : (0 : ℚ) < m₁ * 2 ^ q₁ / (m₂ * 2 ^ q₂) := by positivity
  have fine := le_unitExponent_div q₁ q₂ some₁ some₂
  rw [Float.Model.UnpackedFloat.div, divCore]
  generalize Format.binary64.targetExponent (totalExponent m₁ q₁ - totalExponent m₂ q₂) = target
    at fine ⊢
  obtain ⟨shift, coarse⟩ : ∃ shift : ℕ, q₁ - q₂ = min (q₁ - q₂) target + shift :=
    ⟨(q₁ - q₂ - min (q₁ - q₂) target).toNat, by omega⟩
  have count : (q₁ - q₂ - min (q₁ - q₂) target).toNat = shift := by omega
  have scaled : (m₁ : ℚ) * 2 ^ q₁ / (m₂ * 2 ^ q₂) / 2 ^ min (q₁ - q₂) target =
      (m₁ <<< shift : ℕ) / m₂ := by
    have power : (2 : ℚ) ^ q₁ = 2 ^ q₂ * (2 ^ min (q₁ - q₂) target * 2 ^ shift) := by
      rw [← zpow_natCast, ← zpow_add₀ two_ne_zero, ← zpow_add₀ two_ne_zero, ← coarse]
      congr 1
      omega
    rw [Nat.shiftLeft_eq, Nat.cast_mul, Nat.cast_pow, Nat.cast_ofNat, power]
    field_simp
  rw [count]
  refine toNat_pack_roundWithAccuracy positive ?_ (by omega)
  rw [scaled]
  exact represents_div _ some₂

/-- The quotient of two positive floats is the float nearest to the quotient of their values. -/
theorem div_eq {x y : Float} (first : IsPositive x) (second : IsPositive y) :
    x / y = ofMagnitude false (nearestTo (valueOf (magnitude x) / valueOf (magnitude y))) := by
  obtain ⟨some₁, unpacked₁⟩ := first.unpack_eq
  obtain ⟨some₂, unpacked₂⟩ := second.unpack_eq
  apply ofModel_pack
  rw [unpacked₁, unpacked₂, valueOf, valueOf]
  exact toNat_pack_div _ _ some₁ some₂

/-! ## Numbers that floats hold exactly -/

/-- The bits of a float that is known by its bits. -/
theorem toNat_toBits_ofMagnitude {bits : ℕ} (finite : bits < infinity) :
    (ofMagnitude false bits).toBits.toNat = bits := by
  have bound : bits < 2047 * 2 ^ 52 := finite
  have whole : (UInt64.ofNat bits).toBitVec.toNat = bits := Nat.mod_eq_of_lt (by omega)
  have number : ¬ @isNaNBits .binary64 (UInt64.ofNat bits).toBitVec = true := by
    intro ones
    have exponent := congrArg BitVec.toNat (of_decide_eq_true ones).1
    rw [unpackExponent_def, BitVec.extractLsb'_toNat, whole, Nat.shiftRight_eq_div_pow] at exponent
    change bits / 2 ^ 52 % 2 ^ 11 = 2047 at exponent
    omega
  change (pack .binary64 (unpack .binary64 (UInt64.ofNat bits).toBitVec)).toNat = bits
  rw [pack_unpack _ (by decide), if_neg number, whole]

/-- Bits between those of zero and those of infinity make a positive float. -/
theorem isPositive_ofMagnitude {bits : ℕ} (some : 0 < bits) (finite : bits < infinity) :
    IsPositive (ofMagnitude false bits) ∧ magnitude (ofMagnitude false bits) = bits := by
  have bound : bits < 2047 * 2 ^ 52 := finite
  have whole := toNat_toBits_ofMagnitude finite
  have same : magnitude (ofMagnitude false bits) = bits := by
    rw [magnitude, whole]
    exact Nat.mod_eq_of_lt (show bits < 2 ^ 63 by omega)
  refine ⟨⟨decide_eq_false ?_, by omega, by omega⟩, same⟩
  rw [whole]
  exact not_le.mpr (show bits < 2 ^ 63 by omega)

theorem decode_of_units {m steps : ℕ} (full : 2 ^ 52 ≤ m) (few : m < 2 ^ 53) :
    decode (steps * twoTo fractionBits + m) = (m, steps + leastExponent) := by
  have unit : twoTo fractionBits = 2 ^ 52 := rfl
  have exponent : (steps * 2 ^ 52 + m) / 2 ^ 52 = steps + 1 := by omega
  have fraction : (steps * 2 ^ 52 + m) % 2 ^ 52 + 2 ^ 52 = m := by omega
  rw [decode, unit, exponent, if_neg (Nat.succ_ne_zero steps), fraction]
  congr 1
  omega

/-- What fits in 53 bits has all of them after a shift. -/
theorem exists_shift_full {m : ℕ} (some : 0 < m) (few : m < 2 ^ 53) :
    ∃ shift ≤ 52, 2 ^ 52 ≤ m * 2 ^ shift ∧ m * 2 ^ shift < 2 ^ 53 := by
  have bits : m.log2 < 53 := (Nat.log2_lt some.ne').mpr few
  obtain ⟨shift, filled⟩ : ∃ shift, m.log2 + shift = 52 := ⟨52 - m.log2, by omega⟩
  have above : m < 2 ^ (m.log2 + 1) := Nat.lt_log2_self
  refine ⟨shift, by omega, ?_, ?_⟩
  · rw [← filled, pow_add]
    exact Nat.mul_le_mul_right _ (Nat.log2_self_le some.ne')
  · calc m * 2 ^ shift < 2 ^ (m.log2 + 1) * 2 ^ shift := by gcongr
      _ = 2 ^ 53 := by rw [← pow_add]; congr 1; omega

/-- What fits in 53 bits is the value of a float. -/
theorem valueOf_nearestTo {m : ℕ} {q : ℤ} (some : 0 < m) (few : m < 2 ^ 53)
    (low : -1022 ≤ q) (high : q ≤ 971) :
    0 < nearestTo (m * 2 ^ q) ∧ nearestTo (m * 2 ^ q) < infinity ∧
      valueOf (nearestTo (m * 2 ^ q)) = m * 2 ^ q := by
  obtain ⟨shift, short, full, fits⟩ := exists_shift_full some few
  obtain ⟨steps, least⟩ : ∃ steps : ℕ, q - shift = steps + leastExponent :=
    ⟨(q - shift - leastExponent).toNat, by rw [leastExponent]; omega⟩
  have same : (m : ℚ) * 2 ^ q = (m * 2 ^ shift : ℕ) * 2 ^ ((steps : ℤ) + leastExponent) := by
    rw [← least, zpow_sub₀ two_ne_zero, zpow_natCast, Nat.cast_mul, Nat.cast_pow, Nat.cast_ofNat]
    field_simp
  generalize m * 2 ^ shift = units at full fits same
  have unit : unitExponent (units * 2 ^ ((steps : ℤ) + leastExponent)) = steps + leastExponent := by
    rw [unitExponent, log_of_units units 52 _ full fits]
    omega
  have top : infinity = 2046 * 2 ^ 52 + 2 ^ 52 := by decide
  have small : steps * twoTo fractionBits + units < infinity := by
    change steps * 2 ^ 52 + units < infinity
    rw [leastExponent] at least
    omega
  rw [same, nearestTo_of_units (by omega) unit, add_sub_cancel_right, Int.toNat_natCast,
    Nat.min_eq_right small.le]
  refine ⟨by omega, small, ?_⟩
  rw [valueOf, decode_of_units full fits]

/-! ## Decimals -/

/-- Whole numbers with 53 bits are values of floats. -/
theorem valueOf_nearestTo_natCast {n : ℕ} (some : 0 < n) (few : n < 2 ^ 53) :
    0 < nearestTo n ∧ nearestTo n < infinity ∧ valueOf (nearestTo n) = n := by
  have exact := valueOf_nearestTo (q := 0) some few (by norm_num) (by norm_num)
  rwa [zpow_zero, mul_one] at exact

/-- Powers of ten are values of floats up to the 22nd. -/
theorem valueOf_nearestTo_tenPower {places : ℕ} (short : places ≤ 22) :
    0 < nearestTo (10 ^ places) ∧ nearestTo (10 ^ places) < infinity ∧
      valueOf (nearestTo (10 ^ places)) = 10 ^ places := by
  have fives : 5 ^ places < 2 ^ 53 :=
    (Nat.pow_le_pow_right (by norm_num) short).trans_lt (by norm_num)
  have exact := valueOf_nearestTo (q := places) (by positivity) fives (by omega) (by omega)
  have ten : ((5 ^ places : ℕ) : ℚ) * 2 ^ (places : ℤ) = 10 ^ places := by
    rw [Nat.cast_pow, zpow_natCast, ← mul_pow]
    norm_num
  rwa [ten] at exact

/-- A whole number over a power of ten is the float nearest to the decimal if both are values of
floats. -/
theorem toFloat_div_tenPower {n places : ℕ} (some : 0 < n) (few : n < 2 ^ 53)
    (short : places ≤ 22) :
    (UInt64.ofNat n).toFloat / ofDecimal false 1 places =
      ofMagnitude false (nearestTo (n * 10 ^ (-(places : ℤ)))) := by
  obtain ⟨someWhole, finiteWhole, whole⟩ := valueOf_nearestTo_natCast some few
  obtain ⟨somePower, finitePower, power⟩ := valueOf_nearestTo_tenPower short
  obtain ⟨first, firstBits⟩ := isPositive_ofMagnitude someWhole finiteWhole
  obtain ⟨second, secondBits⟩ := isPositive_ofMagnitude somePower finitePower
  have word : (UInt64.ofNat n).toNat = n := Nat.mod_eq_of_lt (by omega)
  rw [toFloat_eq, word, ofDecimal, nearestDecimal_eq, Nat.cast_one, one_mul, zpow_natCast,
    div_eq first second, firstBits, secondBits, whole, power, zpow_neg, zpow_natCast,
    div_eq_mul_inv]

end SourceRecipe.Binary64
