import Mathlib
import SourceRecipe.Proofs.Number.Nearest

/-!
# Rounding of mantissas

A float is rounded by shifting its mantissa to the exponent of the units, where two more bits keep
what the rounding needs to know of the digits that fell off.  They tell the number well enough that
what is packed is the pattern nearest to it.
-/

namespace SourceRecipe.Binary64

open Float.Model (Format totalExponent)
open Float.Model.UnpackedFloat

/-! ## Mantissas that are shifted and rounded -/

/-- The number that a mantissa with its two further bits stands for, as far as they tell. -/
def Represents (em : ExtendedMantissa) (x : ℚ) : Prop :=
  let least : ℚ := em.mantissa + if em.roundBit then 1 / 2 else 0
  if em.stickyBit then least < x ∧ x < least + 1 / 2 else x = least

theorem Represents.floor {em : ExtendedMantissa} {x : ℚ} (represents : Represents em x) :
    ⌊x⌋₊ = em.mantissa := by
  obtain ⟨mantissa, roundBit, stickyBit⟩ := em
  have bounds : (mantissa : ℚ) ≤ x ∧ x < mantissa + 1 := by
    cases roundBit <;> cases stickyBit <;>
      simp only [Represents, Bool.false_eq_true, if_false, if_true, add_zero] at represents <;>
      constructor <;> linarith
  exact (Nat.floor_eq_iff ((Nat.cast_nonneg mantissa).trans bounds.1)).mpr bounds

/-- The two bits tell how the number is rounded. -/
theorem Represents.roundedMantissa {em : ExtendedMantissa} {x : ℚ}
    (represents : Represents em x) : em.roundedMantissa = roundEven x := by
  rw [roundEven, represents.floor]
  obtain ⟨mantissa, roundBit, stickyBit⟩ := em
  cases roundBit <;> cases stickyBit <;>
    simp only [Represents, Bool.false_eq_true, if_false, if_true, add_zero] at represents
  · rw [if_pos (by linarith)]
    rfl
  · rw [if_pos (by linarith)]
    rfl
  · rw [if_neg (by linarith), if_pos (by linarith)]
    rfl
  · rw [if_neg (by linarith), if_neg (by linarith)]
    rfl

theorem Represents.shiftRightOne {em : ExtendedMantissa} {x : ℚ}
    (represents : Represents em x) : Represents em.shiftRightOne (x / 2) := by
  obtain ⟨mantissa, roundBit, stickyBit⟩ := em
  have parts : (mantissa : ℚ) = 2 * (mantissa / 2 : ℕ) + (mantissa % 2 : ℕ) := by
    exact_mod_cast (Nat.div_add_mod mantissa 2).symm
  -- The last bit becomes the round bit, and what the two bits told is kept in the sticky bit.
  rcases Nat.mod_two_eq_zero_or_one mantissa with last | last <;>
    rw [last] at parts <;> push_cast at parts <;> cases roundBit <;> cases stickyBit <;>
      simp only [Represents, ExtendedMantissa.shiftRightOne, last, bne_self_eq_false,
        Nat.one_ne_zero, bne_iff_ne, ne_eq, not_false_eq_true, Bool.or_false, Bool.or_true,
        Bool.false_eq_true, if_false, if_true, add_zero] at represents ⊢ <;>
      first | (constructor <;> linarith) | linarith

theorem Represents.shiftRight {em : ExtendedMantissa} {x : ℚ} (represents : Represents em x)
    (count : ℕ) : Represents (em >>> count) (x / 2 ^ count) := by
  change Represents (count.repeat ExtendedMantissa.shiftRightOne em) _
  induction count with
  | zero => simpa [Nat.repeat] using represents
  | succ count ih =>
      rw [Nat.repeat, pow_succ, ← div_div]
      exact ih.shiftRightOne

theorem represents_exact (m : ℕ) :
    Represents (ExtendedMantissa.ofMantissaAndAccuracy m .exact) m := by
  simp [Represents, ExtendedMantissa.ofMantissaAndAccuracy]

/-- A quotient with the accuracy that its remainder tells. -/
theorem represents_div (num : ℕ) {den : ℕ} (positive : 0 < den) :
    Represents (ExtendedMantissa.ofMantissaAndAccuracy (num / den)
      (accuracyOfFraction (num % den) den)) (num / den) := by
  have above : (0 : ℚ) < den := Nat.cast_pos.mpr positive
  have value : (num : ℚ) / den = (num / den : ℕ) + (num % den : ℕ) / den := by
    rw [div_eq_iff above.ne', add_mul, div_mul_cancel₀ _ above.ne', mul_comm]
    exact_mod_cast (Nat.div_add_mod num den).symm
  have less : ((num % den : ℕ) : ℚ) / den < 1 :=
    (div_lt_one above).mpr (Nat.cast_lt.mpr (Nat.mod_lt num positive))
  have twice : 2 * (((num % den : ℕ) : ℚ) / den) = (2 * (num % den) : ℕ) / den := by
    rw [Nat.cast_mul, Nat.cast_ofNat, mul_div_assoc]
  rw [value, accuracyOfFraction]
  split
  case isTrue none => simp [Represents, ExtendedMantissa.ofMantissaAndAccuracy, none]
  case isFalse some =>
    have rest : (0 : ℚ) < (num % den : ℕ) / den :=
      div_pos (Nat.cast_pos.mpr (Nat.pos_of_ne_zero some)) above
    cases order : compare (2 * (num % den)) den with
    | lt =>
        have half : 2 * (((num % den : ℕ) : ℚ) / den) < 1 := by
          rw [twice, div_lt_one above, Nat.cast_lt]
          exact Nat.compare_eq_lt.mp order
        simp only [Represents, ExtendedMantissa.ofMantissaAndAccuracy, if_true,
          Bool.false_eq_true, if_false, add_zero]
        constructor <;> linarith
    | eq =>
        have half : 2 * (((num % den : ℕ) : ℚ) / den) = 1 := by
          rw [twice, div_eq_one_iff_eq above.ne', Nat.cast_inj]
          exact Nat.compare_eq_eq.mp order
        simp only [Represents, ExtendedMantissa.ofMantissaAndAccuracy, if_true,
          Bool.false_eq_true, if_false]
        linarith
    | gt =>
        have half : 1 < 2 * (((num % den : ℕ) : ℚ) / den) := by
          rw [twice, one_lt_div above, Nat.cast_lt]
          exact Nat.compare_eq_gt.mp order
        simp only [Represents, ExtendedMantissa.ofMantissaAndAccuracy, if_true]
        constructor <;> linarith

/-! ## Rounding to units -/

theorem roundEven_bounds (x : ℚ) : ⌊x⌋₊ ≤ roundEven x ∧ roundEven x ≤ ⌊x⌋₊ + 1 := by
  rw [roundEven]
  split
  · omega
  · split <;> omega

theorem targetExponent_eq (e : ℤ) :
    Format.binary64.targetExponent e = max (e - 53) leastExponent :=
  rfl

/-- The bits of the whole part of a number tell its units, if the part is not too coarse. -/
theorem targetExponent_of_floor {x : ℚ} {e : ℤ} (positive : 0 < x) (fine : e ≤ unitExponent x) :
    Format.binary64.targetExponent (totalExponent ⌊x / 2 ^ e⌋₊ e) = unitExponent x := by
  have power : (0 : ℚ) < 2 ^ e := by positivity
  rw [targetExponent_eq, totalExponent]
  rw [unitExponent] at fine ⊢
  by_cases none : ⌊x / 2 ^ e⌋₊ = 0
  · have small : Int.log 2 x < e := by
      rw [Nat.floor_eq_zero, div_lt_one power] at none
      rw [← Int.lt_zpow_iff_log_lt one_lt_two positive]
      exact none
    rw [none, Nat.log2_zero, leastExponent] at *
    omega
  · have scaled : (1 : ℚ) ≤ x / 2 ^ e := by
      by_contra less
      exact none (Nat.floor_eq_zero.mpr (not_le.mp less))
    have log : Int.log 2 x = (⌊x / 2 ^ e⌋₊).log2 + e := by
      have whole := Int.log_of_one_le_right 2 scaled
      rw [log_div_zpow positive, ← Nat.log2_eq_log_two] at whole
      omega
    omega

/-! ## Packing -/

theorem toNat_packComponents (exponent : BitVec 11) (mantissa : BitVec 52) :
    (packComponents .binary64 .positive exponent mantissa).toNat =
      exponent.toNat * twoTo fractionBits + mantissa.toNat := by
  have sign : Sign.positive.toBitVec.toNat = 0 := rfl
  change (Sign.positive.toBitVec ++ exponent ++ mantissa).toNat =
    exponent.toNat * 2 ^ 52 + mantissa.toNat
  rw [BitVec.toNat_append, BitVec.toNat_append, sign, Nat.zero_shiftLeft, Nat.zero_or,
    ← Nat.shiftLeft_add_eq_or_of_lt mantissa.isLt, Nat.shiftLeft_eq]

/-- The bits of a number in units of the last place. -/
theorem toNat_pack_finite {m : ℕ} {q : ℤ} (some : 0 < m) (few : m < 2 ^ 53)
    (least : leastExponent ≤ q) (full : 2 ^ 52 ≤ m ∨ q = leastExponent) :
    (pack .binary64 (.finite .positive m q some)).toNat =
      min infinity ((q - leastExponent).toNat * twoTo fractionBits + m) := by
  obtain ⟨steps, rfl⟩ : ∃ steps : ℕ, q = steps + leastExponent :=
    ⟨(q - leastExponent).toNat, by omega⟩
  have biased : ((steps : ℤ) + leastExponent + (Format.binary64.exponentBias : ℕ) +
      (Format.binary64.mantissaBitsWithoutImplicit : ℕ)).toNat = steps + 1 := by
    change ((steps : ℤ) + -1074 + 1023 + 52).toNat = steps + 1
    omega
  have top : infinity = 2046 * 2 ^ 52 + 2 ^ 52 := by decide
  have unit : twoTo fractionBits = 2 ^ 52 := rfl
  rw [pack, biased, add_sub_cancel_right, Int.toNat_natCast, unit]
  change BitVec.toNat (if 2 ^ 11 ≤ steps + 1 + 1 then packComponents .binary64 .positive (-1#11) 0
    else if m.log2 + 1 = 53 then
      packComponents .binary64 .positive (BitVec.ofNat 11 (steps + 1)) (BitVec.ofNat 52 m)
    else packComponents .binary64 .positive 0#11 (BitVec.ofNat 52 m)) = _
  -- Above the greatest exponent stands infinity; a full mantissa loses its leading bit, which the
  -- exponent tells, and any other one has the least exponent.
  by_cases large : 2 ^ 11 ≤ steps + 1 + 1
  · have many : 2 ^ 52 ≤ m := by
      rw [leastExponent] at full
      omega
    rw [if_pos large, toNat_packComponents, Nat.min_eq_left (by omega)]
    rfl
  · rw [if_neg large]
    by_cases normal : m.log2 + 1 = 53
    · have many : 2 ^ 52 ≤ m := (Nat.le_log2 some.ne').mp (by omega)
      rw [if_pos normal, toNat_packComponents, BitVec.toNat_ofNat, BitVec.toNat_ofNat, unit,
        Nat.mod_eq_of_lt (by omega), Nat.min_eq_right (by omega)]
      omega
    · have little : m < 2 ^ 52 := by
        have bits : m.log2 < 53 := (Nat.log2_lt some.ne').mpr few
        exact (Nat.log2_lt some.ne').mp (by omega)
      have none : steps = 0 := by
        rw [leastExponent] at full
        omega
      rw [if_neg normal, toNat_packComponents, BitVec.toNat_ofNat, BitVec.toNat_ofNat,
        Nat.mod_eq_of_lt little, none, Nat.min_eq_right (by omega)]
      rfl

/-- A mantissa that fits stays as it is. -/
theorem shiftToTargetExponent_of_lt {m : ℕ} {q : ℤ} (few : m < 2 ^ 53)
    (least : leastExponent ≤ q) :
    shiftToTargetExponent .binary64 m q .exact = (⟨m, false, false⟩, q) := by
  have bits : m.log2 < 53 := by
    by_cases none : m = 0
    · rw [none, Nat.log2_zero]
      omega
    · exact (Nat.log2_lt none).mpr few
  have shift : (Format.binary64.targetExponent (totalExponent m q) - q).toNat = 0 := by
    rw [targetExponent_eq, totalExponent]
    omega
  rw [shiftToTargetExponent, shiftToExponent, shift, Int.natCast_zero, add_zero]
  rfl

/-- A mantissa with one bit more, as rounding up may make it, is shifted by that bit. -/
theorem shiftToTargetExponent_of_eq {q : ℤ} (least : leastExponent ≤ q) :
    shiftToTargetExponent .binary64 (2 ^ 53) q .exact = (⟨2 ^ 52, false, false⟩, q + 1) := by
  have shift : (Format.binary64.targetExponent (totalExponent (2 ^ 53) q) - q).toNat = 1 := by
    rw [targetExponent_eq, totalExponent, Nat.log2_two_pow]
    omega
  rw [shiftToTargetExponent, shiftToExponent, shift]
  rfl

/-- A number that is not too small fills the units of the last place. -/
theorem floor_units {x : ℚ} (positive : 0 < x) :
    ⌊x / 2 ^ unitExponent x⌋₊ < 2 ^ 53 ∧
      (2 ^ 52 ≤ ⌊x / 2 ^ unitExponent x⌋₊ ∨ unitExponent x = leastExponent) := by
  have power : (0 : ℚ) < 2 ^ unitExponent x := by positivity
  have scaled : 0 < x / 2 ^ unitExponent x := div_pos positive power
  have log := log_div_zpow positive (unitExponent x)
  constructor
  · rw [Nat.floor_lt scaled.le]
    have high : Int.log 2 (x / 2 ^ unitExponent x) < 53 := by
      rw [log, unitExponent]
      omega
    exact (Int.lt_zpow_iff_log_lt one_lt_two scaled).mpr high
  · refine or_iff_not_imp_right.mpr fun normal => Nat.le_floor ?_
    have low : 52 ≤ Int.log 2 (x / 2 ^ unitExponent x) := by
      rw [unitExponent] at normal
      rw [log, unitExponent]
      omega
    exact (Int.zpow_le_iff_le_log one_lt_two scaled).mpr low

/-- Units that were rounded are packed once they are shifted for the bit that rounding up may have
added. -/
theorem toNat_pack_shifted {units : ℕ} {q e : ℤ} {em : ExtendedMantissa}
    (shifted : shiftToTargetExponent .binary64 units q .exact = (em, e)) (few : units ≤ 2 ^ 53)
    (least : leastExponent ≤ q) (full : 2 ^ 52 ≤ units ∨ q = leastExponent) :
    (pack .binary64 (if none : em.mantissa = 0 then .zero .positive
      else .finite .positive em.mantissa e (Nat.pos_of_ne_zero none))).toNat =
        min infinity ((q - leastExponent).toNat * twoTo fractionBits + units) := by
  rcases few.lt_or_eq with fits | rfl
  · rw [shiftToTargetExponent_of_lt fits least] at shifted
    cases shifted
    dsimp only
    split
    case isTrue zero =>
      have bottom : q = leastExponent := full.resolve_left (by omega)
      rw [zero, bottom]
      rfl
    case isFalse some => exact toNat_pack_finite _ fits least full
  · rw [shiftToTargetExponent_of_eq least] at shifted
    cases shifted
    have bits : (q + 1 - leastExponent).toNat = (q - leastExponent).toNat + 1 := by omega
    have carried : ((q - leastExponent).toNat + 1) * twoTo fractionBits + 2 ^ 52 =
        (q - leastExponent).toNat * twoTo fractionBits + 2 ^ 53 := by
      rw [Nat.succ_mul]
      change _ + 2 ^ 52 + 2 ^ 52 = _
      omega
    rw [← carried, ← bits]
    exact toNat_pack_finite (by norm_num) (by norm_num) (by omega) (.inl le_rfl)

/-- A number whose mantissa and accuracy are known is rounded to the nearest one. -/
theorem toNat_pack_roundWithAccuracy {x : ℚ} {m : ℕ} {e : ℤ} {accuracy : Accuracy}
    (positive : 0 < x)
    (represents : Represents (ExtendedMantissa.ofMantissaAndAccuracy m accuracy) (x / 2 ^ e))
    (fine : e ≤ unitExponent x) :
    (pack .binary64 (roundWithAccuracy .binary64 .positive m e accuracy)).toNat = nearestTo x := by
  obtain ⟨shift, unit⟩ : ∃ shift : ℕ, unitExponent x = e + shift :=
    ⟨(unitExponent x - e).toNat, by omega⟩
  have whole : m = ⌊x / 2 ^ e⌋₊ := by
    rw [represents.floor]
    rcases accuracy with _ | order
    · rfl
    · cases order <;> rfl
  have target : Format.binary64.targetExponent (totalExponent m e) = e + shift := by
    rw [whole, targetExponent_of_floor positive fine, unit]
  have units : (ExtendedMantissa.ofMantissaAndAccuracy m accuracy >>> shift).roundedMantissa =
      roundEven (x / 2 ^ unitExponent x) := by
    rw [(represents.shiftRight shift).roundedMantissa, unit, zpow_add₀ two_ne_zero, div_div,
      zpow_natCast]
  rw [roundWithAccuracy, shiftToTargetExponent, shiftToExponent, target, add_sub_cancel_left,
    Int.toNat_natCast]
  dsimp only
  rw [units, ← unit, nearestTo, if_neg positive.ne']
  obtain ⟨few, full⟩ := floor_units positive
  obtain ⟨low, high⟩ := roundEven_bounds (x / 2 ^ unitExponent x)
  exact toNat_pack_shifted rfl (by omega) (le_max_left _ _) (full.imp_left fun many => by omega)

end SourceRecipe.Binary64
