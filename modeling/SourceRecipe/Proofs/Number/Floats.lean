import Mathlib
import SourceRecipe.Number.Real
import SourceRecipe.Proofs.Number.Decimals

/-!
# Floats as bit patterns

A float is told by its sign and the bits below it.  The bits of a finite float are below those of
infinity, and nothing but what is not a number lies above; so a finite float is the one nearest to
the decimal that it is written with.
-/

namespace SourceRecipe.Binary64

open Float.Model.UnpackedFloat

theorem toNat_toBits (x : Float) :
    x.toBits.toNat = (if isNegative x then twoTo 63 else 0) + magnitude x := by
  have bound : x.toBits.toNat < 2 * twoTo 63 := x.toBits.toNat_lt
  rw [isNegative, magnitude]
  by_cases negative : twoTo 63 ≤ x.toBits.toNat
  · rw [decide_eq_true negative, if_pos rfl, Nat.mod_eq_sub_mod negative,
      Nat.mod_eq_of_lt (by omega)]
    omega
  · rw [decide_eq_false negative, if_neg Bool.false_ne_true, Nat.mod_eq_of_lt (by omega),
      Nat.zero_add]

/-- A float is the one with its sign and its bits. -/
theorem ofMagnitude_magnitude (x : Float) : ofMagnitude (isNegative x) (magnitude x) = x := by
  have pattern : (if isNegative x then twoTo 63 + magnitude x else magnitude x) =
      x.toBits.toNat := by
    rw [toNat_toBits]
    split
    · rfl
    · rw [Nat.zero_add]
  rw [ofMagnitude, pattern, UInt64.ofNat_toNat, Float.ofBits_toBits]

def withSign (negative : Bool) (text : List Char) : List Char :=
  if negative then '-' :: text else text

theorem signed_eq_withSign (x : Float) (text : List Char) :
    signed x text = withSign (isNegative x) text :=
  rfl

/-! ## Infinities and what is not a number -/

/-- The bits of the exponent. -/
theorem toNat_unpackExponent (x : Float) :
    (@unpackExponent .binary64 x.toBits.toBitVec).toNat = magnitude x / 2 ^ 52 := by
  rw [unpackExponent_def, BitVec.extractLsb'_toNat, magnitude, Nat.shiftRight_eq_div_pow]
  change x.toBits.toNat / 2 ^ 52 % 2 ^ 11 = x.toBits.toNat % 2 ^ 63 / 2 ^ 52
  omega

/-- The bits of the fraction. -/
theorem toNat_unpackMantissa (x : Float) :
    (@unpackMantissa .binary64 x.toBits.toBitVec).toNat = magnitude x % 2 ^ 52 := by
  rw [unpackMantissa_def, BitVec.extractLsb'_toNat, magnitude, Nat.shiftRight_eq_div_pow]
  change x.toBits.toNat / 2 ^ 0 % 2 ^ 52 = x.toBits.toNat % 2 ^ 63 % 2 ^ 52
  omega

/-- From infinity on, all bits of the exponent are set. -/
theorem unpackExponent_eq_ones_iff (x : Float) :
    @unpackExponent .binary64 x.toBits.toBitVec = -1#11 ↔ infinity ≤ magnitude x := by
  have bound : magnitude x < 2 ^ 63 := Nat.mod_lt _ (twoTo_pos 63)
  rw [← BitVec.toNat_inj, toNat_unpackExponent]
  change magnitude x / 2 ^ 52 = 2047 ↔ 0x7FF0000000000000 ≤ magnitude x
  omega

theorem unpackMantissa_eq_zero_iff (x : Float) :
    @unpackMantissa .binary64 x.toBits.toBitVec = 0#52 ↔ magnitude x % 2 ^ 52 = 0 := by
  rw [← BitVec.toNat_inj, toNat_unpackMantissa]
  rfl

/-- The bits of a float tell whether it is infinite, and whether it is a number at all. -/
theorem isInf_isNaN_eq (x : Float) :
    x.isInf = decide (magnitude x = infinity) ∧ x.isNaN = decide (infinity < magnitude x) := by
  have bound : magnitude x < 2 ^ 63 := Nat.mod_lt _ (twoTo_pos 63)
  have top : infinity = 2047 * 2 ^ 52 := by decide
  change (unpack .binary64 x.toBits.toBitVec).isInf = _ ∧
    (unpack .binary64 x.toBits.toBitVec).isNaN = _
  unfold unpack
  dsimp only
  by_cases ones : infinity ≤ magnitude x
  · rw [if_pos ((unpackExponent_eq_ones_iff x).mpr ones)]
    by_cases zero : magnitude x % 2 ^ 52 = 0
    · rw [if_pos ((unpackMantissa_eq_zero_iff x).mpr zero)]
      exact ⟨(decide_eq_true (by omega)).symm, (decide_eq_false (by omega)).symm⟩
    · rw [if_neg fun none => zero ((unpackMantissa_eq_zero_iff x).mp none)]
      exact ⟨(decide_eq_false (by omega)).symm, (decide_eq_true (by omega)).symm⟩
  · rw [if_neg fun all => ones ((unpackExponent_eq_ones_iff x).mp all),
      decide_eq_false (by omega), decide_eq_false (by omega)]
    split
    · split <;> exact ⟨rfl, rfl⟩
    · exact ⟨rfl, rfl⟩

theorem magnitude_of_isInf {x : Float} (infinite : x.isInf = true) : magnitude x = infinity := by
  rw [(isInf_isNaN_eq x).1] at infinite
  exact of_decide_eq_true infinite

/-- A number that is not infinite has bits below those of infinity. -/
theorem magnitude_lt_infinity {x : Float} (number : x.isNaN = false) (finite : x.isInf = false) :
    magnitude x < infinity := by
  obtain ⟨inf, nan⟩ := isInf_isNaN_eq x
  have notEqual := of_decide_eq_false (inf.symm.trans finite)
  have notAbove := of_decide_eq_false (nan.symm.trans number)
  omega

/-- There is one float that is not a number. -/
theorem eq_of_isNaN {x y : Float} (first : x.isNaN = true) (second : y.isNaN = true) : x = y := by
  rw [Float.isNaN_eq_decide_eq_nan, decide_eq_true_eq] at first second
  rw [first, second]

/-- A float equals itself if it is a number. -/
theorem beq_self_iff {x : Float} : (x == x) = true ↔ x.isNaN = false := by
  rw [Float.beq_self_iff, Float.isNaN_eq_decide_eq_nan, decide_eq_false_iff_not]

/-- Floats that count as equal are the same, unless they are zeros. -/
theorem eq_of_beq {x y : Float} (same : (x == y) = true) (large : ¬ y < 1.0) : x = y := by
  obtain ⟨_, _, equal | ⟨_, zero⟩ | ⟨_, zero⟩⟩ := Float.beq_iff_ne_nan_and_eq.mp same
  · exact equal
  · exact absurd (by rw [zero]; decide +kernel) large
  · exact absurd (by rw [zero]; decide +kernel) large

/-- A finite float is the one nearest to the decimal that it is written with. -/
theorem ofMagnitude_shortest (tie : Tie) {x : Float} (number : x.isNaN = false)
    (finite : x.isInf = false) :
    ofMagnitude (isNegative x) (nearestTo (shortest tie (magnitude x)).value) = x := by
  rw [nearestTo_shortest tie (magnitude_lt_infinity number finite), ofMagnitude_magnitude]

end SourceRecipe.Binary64
