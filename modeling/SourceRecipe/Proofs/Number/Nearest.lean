import Mathlib.Algebra.Order.Field.Power
import Mathlib.Algebra.Order.Floor.Semifield
import Mathlib.Data.Int.Log
import Mathlib.Data.Rat.Floor
import Mathlib.Tactic.FieldSimp
import Mathlib.Tactic.Linarith
import Mathlib.Tactic.NormNum
import Mathlib.Tactic.Positivity
import Mathlib.Tactic.Ring
import SourceRecipe.Number.Binary64

/-!
# Rounding told by values

The pattern nearest to a fraction depends on the value of the fraction alone.  `nearestTo` is the
pattern as a function of that value; the exponent comes from the logarithm of the value, and all
that is rounded is a number of units of the last place.  A number that has a pattern gets it back,
what is less than half of the least number rounds to zero, and what is above all numbers is
infinite.
-/

namespace SourceRecipe.Binary64

theorem cast_twoTo (n : ℕ) : ((twoTo n : ℕ) : ℚ) = 2 ^ n :=
  Nat.cast_pow 2 n

theorem cast_tenTo (n : ℕ) : ((tenTo n : ℕ) : ℚ) = 10 ^ n :=
  Nat.cast_pow 10 n

/-- A power with a whole exponent that is not negative. -/
theorem zpow_of_nonneg {base : ℚ} {q : ℤ} (nonneg : 0 ≤ q) : base ^ q = base ^ q.toNat := by
  rw [← zpow_natCast, Int.toNat_of_nonneg nonneg]

theorem zpow_of_neg {base : ℚ} {q : ℤ} (neg : ¬ 0 ≤ q) : base ^ q = (base ^ (-q).toNat)⁻¹ := by
  rw [← zpow_natCast, Int.toNat_of_nonneg (by omega), zpow_neg, inv_inv]

/-! ## The nearest pattern as a function of the value -/

def roundEven (x : ℚ) : ℕ :=
  let below := ⌊x⌋₊
  if 2 * (x - below) < 1 then below
  else if 2 * (x - below) = 1 then below + below % 2
  else below + 1

def unitExponent (x : ℚ) : ℤ :=
  max leastExponent (Int.log 2 x - 52)

def nearestTo (x : ℚ) : ℕ :=
  if x = 0 then 0
  else
    min infinity ((unitExponent x - leastExponent).toNat * twoTo fractionBits +
      roundEven (x / 2 ^ unitExponent x))

theorem roundDiv_eq_roundEven (num : ℕ) {den : ℕ} (positive : 0 < den) :
    roundDiv num den = roundEven ((num : ℚ) / den) := by
  have above : (0 : ℚ) < den := Nat.cast_pos.mpr positive
  have floor : ⌊(num : ℚ) / den⌋₊ = num / den := Nat.floor_div_eq_div num den
  have left : 2 * ((num : ℚ) / den - (num / den : ℕ)) = (2 * (num % den) : ℕ) / den := by
    have whole : ((den * (num / den) + num % den : ℕ) : ℚ) = num := by rw [Nat.div_add_mod]
    rw [eq_div_iff above.ne', Nat.cast_mul, Nat.cast_ofNat]
    rw [Nat.cast_add, Nat.cast_mul] at whole
    field_simp
    linarith
  have less : 2 * ((num : ℚ) / den - (num / den : ℕ)) < 1 ↔ 2 * (num % den) < den := by
    rw [left, div_lt_one above, Nat.cast_lt]
  have tie : 2 * ((num : ℚ) / den - (num / den : ℕ)) = 1 ↔ 2 * (num % den) = den := by
    rw [left, div_eq_one_iff_eq above.ne', Nat.cast_inj]
  simp only [roundDiv, roundEven, floor, less, tie]

theorem roundEven_natCast (n : ℕ) : roundEven n = n := by
  have whole := roundDiv_eq_roundEven n Nat.one_pos
  rw [Nat.cast_one, div_one] at whole
  rw [← whole, roundDiv, Nat.div_one, Nat.mod_one]
  rfl

/-- A scaled fraction is the fraction over the power of two. -/
theorem scaled_value (num : ℕ) {den : ℕ} (q : ℤ) (positive : 0 < den) :
    0 < (scaled num den q).2 ∧
      ((scaled num den q).1 : ℚ) / (scaled num den q).2 = num / den / 2 ^ q := by
  have above : (den : ℚ) ≠ 0 := Nat.cast_ne_zero.mpr positive.ne'
  rw [scaled]
  split
  case isTrue nonneg =>
    refine ⟨Nat.mul_pos positive (twoTo_pos _), ?_⟩
    rw [Nat.cast_mul, cast_twoTo, zpow_of_nonneg nonneg, div_div]
  case isFalse neg =>
    refine ⟨positive, ?_⟩
    rw [Nat.cast_mul, cast_twoTo, zpow_of_neg neg, div_inv_eq_mul, div_mul_eq_mul_div]

/-- The bits of numerator and denominator tell the logarithm of a fraction up to one. -/
theorem log_div_bounds {num den : ℕ} (some : 0 < num) (positive : 0 < den) :
    (num.log2 : ℤ) - den.log2 - 1 ≤ Int.log 2 ((num : ℚ) / den) ∧
      Int.log 2 ((num : ℚ) / den) < (num.log2 : ℤ) - den.log2 + 1 := by
  have above : (0 : ℚ) < den := Nat.cast_pos.mpr positive
  have value : (0 : ℚ) < num / den := div_pos (Nat.cast_pos.mpr some) above
  have numLow : ((2 : ℚ) ^ num.log2) ≤ num := by exact_mod_cast Nat.log2_self_le some.ne'
  have numHigh : (num : ℚ) < 2 ^ (num.log2 + 1) := by exact_mod_cast Nat.lt_log2_self
  have denLow : ((2 : ℚ) ^ den.log2) ≤ den := by exact_mod_cast Nat.log2_self_le positive.ne'
  have denHigh : (den : ℚ) < 2 ^ (den.log2 + 1) := by exact_mod_cast Nat.lt_log2_self
  have two : (2 : ℚ) ≠ 0 := two_ne_zero
  constructor
  · rw [← Int.zpow_le_iff_le_log one_lt_two value, Nat.cast_ofNat, le_div_iff₀ above]
    calc (2 : ℚ) ^ ((num.log2 : ℤ) - den.log2 - 1) * den
        ≤ 2 ^ ((num.log2 : ℤ) - den.log2 - 1) * 2 ^ (den.log2 + 1) := by gcongr
      _ = 2 ^ num.log2 := by
          rw [← zpow_natCast, ← zpow_natCast, ← zpow_add₀ two]
          congr 1
          omega
      _ ≤ num := numLow
  · rw [← Int.lt_zpow_iff_log_lt one_lt_two value, Nat.cast_ofNat, div_lt_iff₀ above]
    calc (num : ℚ) < 2 ^ (num.log2 + 1) := numHigh
      _ = 2 ^ ((num.log2 : ℤ) - den.log2 + 1) * 2 ^ den.log2 := by
          rw [← zpow_natCast, ← zpow_natCast, ← zpow_add₀ two]
          congr 1
          omega
      _ ≤ 2 ^ ((num.log2 : ℤ) - den.log2 + 1) * den := by gcongr

theorem exponentOf_eq {num den : ℕ} (some : 0 < num) (positive : 0 < den) :
    exponentOf num den = unitExponent ((num : ℚ) / den) := by
  have value : (0 : ℚ) < num / den :=
    div_pos (Nat.cast_pos.mpr some) (Nat.cast_pos.mpr positive)
  obtain ⟨low, high⟩ := log_div_bounds some positive
  generalize guessed : (num.log2 : ℤ) - den.log2 - 53 = guess
  obtain ⟨below, same⟩ := scaled_value num guess positive
  have few : (scaled num den guess).1 / (scaled num den guess).2 < twoTo 53 ↔
      Int.log 2 ((num : ℚ) / den) < guess + 53 := by
    have above : (0 : ℚ) < (scaled num den guess).2 := Nat.cast_pos.mpr below
    rw [Nat.div_lt_iff_lt_mul below, ← @Nat.cast_lt ℚ, Nat.cast_mul,
      ← div_lt_iff₀ above, same, div_lt_iff₀ (by positivity), cast_twoTo, ← zpow_natCast,
      ← zpow_add₀ two_ne_zero, ← Int.lt_zpow_iff_log_lt one_lt_two value, Nat.cast_ofNat,
      add_comm guess]
    rfl
  simp only [exponentOf, guessed, few, unitExponent]
  split <;> omega

/-- The pattern nearest to a fraction is told by its value. -/
theorem nearestBits_eq (num : ℕ) {den : ℕ} (positive : 0 < den) :
    nearestBits num den = nearestTo ((num : ℚ) / den) := by
  have above : (den : ℚ) ≠ 0 := Nat.cast_ne_zero.mpr positive.ne'
  rw [nearestBits, nearestTo]
  by_cases zero : num = 0
  · rw [if_pos zero, if_pos (by rw [zero, Nat.cast_zero, zero_div])]
  · obtain ⟨below, same⟩ := scaled_value num (exponentOf num den) positive
    rw [if_neg zero, if_neg (div_ne_zero (Nat.cast_ne_zero.mpr zero) above)]
    have units : roundDiv (scaled num den (exponentOf num den)).1
        (scaled num den (exponentOf num den)).2 =
          roundEven ((num : ℚ) / den / 2 ^ unitExponent ((num : ℚ) / den)) := by
      rw [roundDiv_eq_roundEven _ below, same,
        exponentOf_eq (Nat.pos_of_ne_zero zero) positive]
    rw [← units, ← exponentOf_eq (Nat.pos_of_ne_zero zero) positive]

/-- The pattern nearest to a decimal is told by its value. -/
theorem nearestDecimal_eq (digits : ℕ) (power : ℤ) :
    nearestDecimal digits power = nearestTo (digits * 10 ^ power) := by
  rw [nearestDecimal]
  split
  case isTrue nonneg =>
    rw [nearestBits_eq _ Nat.one_pos, Nat.cast_one, div_one, Nat.cast_mul, cast_tenTo,
      zpow_of_nonneg nonneg]
  case isFalse neg =>
    rw [nearestBits_eq _ (tenTo_pos _), cast_tenTo, zpow_of_neg neg, div_eq_mul_inv]

/-! ## Numbers with a pattern -/

def valueOf (bits : ℕ) : ℚ :=
  (decode bits).1 * 2 ^ (decode bits).2

theorem nearestTo_zero : nearestTo 0 = 0 :=
  if_pos rfl

/-- What is rounded to units of the last place where it is whole keeps its number of units. -/
theorem nearestTo_of_units {units : ℕ} {q : ℤ} (some : units ≠ 0)
    (unit : unitExponent (units * 2 ^ q) = q) :
    nearestTo (units * 2 ^ q) =
      min infinity ((q - leastExponent).toNat * twoTo fractionBits + units) := by
  have power : (2 : ℚ) ^ q ≠ 0 := by positivity
  rw [nearestTo, if_neg (mul_ne_zero (Nat.cast_ne_zero.mpr some) power), unit,
    mul_div_cancel_right₀ _ power, roundEven_natCast]

theorem log_mul_zpow {x : ℚ} (positive : 0 < x) (q : ℤ) :
    Int.log 2 (x * 2 ^ q) = Int.log 2 x + q := by
  have power : (0 : ℚ) < 2 ^ q := by positivity
  have bound (e : ℤ) : e ≤ Int.log 2 (x * 2 ^ q) ↔ e ≤ Int.log 2 x + q := by
    rw [← sub_le_iff_le_add, ← Int.zpow_le_iff_le_log one_lt_two (mul_pos positive power),
      ← Int.zpow_le_iff_le_log one_lt_two positive, Nat.cast_ofNat, zpow_sub₀ two_ne_zero,
      div_le_iff₀ power]
  exact le_antisymm ((bound _).mp le_rfl) ((bound _).mpr le_rfl)

theorem log_div_zpow {x : ℚ} (positive : 0 < x) (q : ℤ) :
    Int.log 2 (x / 2 ^ q) = Int.log 2 x - q := by
  rw [div_eq_mul_inv, ← zpow_neg, log_mul_zpow positive, sub_eq_add_neg]

theorem log_of_units (units bits : ℕ) (q : ℤ) (low : 2 ^ bits ≤ units)
    (high : units < 2 ^ (bits + 1)) : Int.log 2 ((units : ℚ) * 2 ^ q) = bits + q := by
  have some : (0 : ℚ) < units := Nat.cast_pos.mpr (lt_of_lt_of_le (by positivity) low)
  rw [log_mul_zpow some, Int.log_natCast, Nat.log_eq_of_pow_le_of_lt_pow low high]

/-- A finite number has the pattern that is nearest to it. -/
theorem nearestTo_valueOf {bits : ℕ} (finite : bits < infinity) :
    nearestTo (valueOf bits) = bits := by
  have whole : bits / twoTo fractionBits * twoTo fractionBits + bits % twoTo fractionBits = bits :=
    Nat.div_add_mod' bits (twoTo fractionBits)
  have inside : bits % twoTo fractionBits < 2 ^ 52 := Nat.mod_lt _ (twoTo_pos _)
  rw [valueOf, decode]
  generalize bits / twoTo fractionBits = exponent at whole
  generalize bits % twoTo fractionBits = fraction at whole inside
  by_cases small : exponent = 0
  · rw [if_pos small]
    rw [small, Nat.zero_mul, Nat.zero_add] at whole
    by_cases zero : fraction = 0
    · rw [← whole, zero, Nat.cast_zero, zero_mul, nearestTo_zero]
    · change nearestTo ((fraction : ℚ) * 2 ^ leastExponent) = bits
      have value : (0 : ℚ) < fraction * 2 ^ leastExponent :=
        mul_pos (Nat.cast_pos.mpr (Nat.pos_of_ne_zero zero)) (by positivity)
      have few : Int.log 2 ((fraction : ℚ) * 2 ^ leastExponent) < 52 + leastExponent := by
        rw [← Int.lt_zpow_iff_log_lt one_lt_two value, Nat.cast_ofNat, zpow_add₀ two_ne_zero]
        gcongr
        exact_mod_cast inside
      rw [nearestTo_of_units zero (by rw [unitExponent]; omega), sub_self, whole]
      change min infinity (0 * twoTo fractionBits + bits) = bits
      rw [Nat.zero_mul, Nat.zero_add, Nat.min_eq_right finite.le]
  · rw [if_neg small]
    change nearestTo (((fraction + 2 ^ 52 : ℕ) : ℚ) * 2 ^ ((exponent : ℤ) + leastExponent - 1)) =
      bits
    have log := log_of_units (fraction + 2 ^ 52) 52 ((exponent : ℤ) + leastExponent - 1)
      (by omega) (by omega)
    rw [nearestTo_of_units (by omega) (by rw [unitExponent, log]; omega)]
    have before : ((exponent : ℤ) + leastExponent - 1 - leastExponent).toNat = exponent - 1 := by
      omega
    have units : (exponent - 1) * twoTo fractionBits + (fraction + 2 ^ 52) = bits := by
      obtain ⟨less, rfl⟩ := Nat.exists_eq_succ_of_ne_zero small
      rw [Nat.succ_mul] at whole
      change less * twoTo fractionBits + (fraction + twoTo fractionBits) = bits
      omega
    rw [before, units, Nat.min_eq_right finite.le]

/-- What is less than half of the least number rounds to zero. -/
theorem nearestTo_of_tiny {x : ℚ} (nonneg : 0 ≤ x) (tiny : x < 2 ^ (leastExponent - 1)) :
    nearestTo x = 0 := by
  rcases nonneg.eq_or_lt with zero | positive
  · rw [← zero, nearestTo_zero]
  · have log : Int.log 2 x < leastExponent - 1 := by
      rw [← Int.lt_zpow_iff_log_lt one_lt_two positive, Nat.cast_ofNat]
      exact tiny
    have unit : unitExponent x = leastExponent := by
      rw [unitExponent]
      omega
    have half : 2 * (x / 2 ^ leastExponent) < 1 := by
      rw [zpow_sub_one₀ two_ne_zero] at tiny
      rw [mul_div_assoc', div_lt_one (by positivity)]
      linarith
    have floor : ⌊x / 2 ^ leastExponent⌋₊ = 0 := by
      rw [Nat.floor_eq_zero]
      linarith
    have rounded : roundEven (x / 2 ^ leastExponent) = 0 := by
      rw [roundEven, floor, Nat.cast_zero, sub_zero, if_pos half]
    rw [nearestTo, if_neg positive.ne', unit, rounded, sub_self]
    rfl

/-- What is above all finite numbers is infinite. -/
theorem nearestTo_of_huge {x : ℚ} (huge : 2 ^ (1024 : ℤ) ≤ x) : nearestTo x = infinity := by
  have positive : 0 < x := lt_of_lt_of_le (by positivity) huge
  have log : 1024 ≤ Int.log 2 x := by
    rw [← Int.zpow_le_iff_le_log one_lt_two positive, Nat.cast_ofNat]
    exact huge
  have unit : unitExponent x = Int.log 2 x - 52 := by
    rw [unitExponent, leastExponent]
    omega
  have many : 2 ^ 52 ≤ roundEven (x / 2 ^ unitExponent x) := by
    have floor : 2 ^ 52 ≤ ⌊x / 2 ^ unitExponent x⌋₊ := by
      apply Nat.le_floor
      rw [le_div_iff₀ (by positivity), unit, Nat.cast_pow, Nat.cast_ofNat, ← zpow_natCast,
        ← zpow_add₀ two_ne_zero]
      have exact := Int.zpow_log_le_self (b := 2) one_lt_two positive
      rw [Nat.cast_ofNat] at exact
      convert exact using 2
      push_cast
      ring
    rw [roundEven]
    split
    · exact floor
    · split <;> omega
  have steps : 2046 ≤ (unitExponent x - leastExponent).toNat := by
    rw [unit, leastExponent]
    omega
  rw [nearestTo, if_neg positive.ne']
  apply Nat.min_eq_left
  calc infinity = 2046 * twoTo fractionBits + 2 ^ 52 := by decide
    _ ≤ _ := Nat.add_le_add (Nat.mul_le_mul_right _ steps) many

end SourceRecipe.Binary64
