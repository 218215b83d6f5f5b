import SourceRecipe.Proofs.Json.Literals
import SourceRecipe.Proofs.Number.Arithmetic

/-!
# Floats in JSON

A literal is read in two steps that both round: its digits become a float, and this is divided by a
power of ten.  With few digits, and few of them behind the point, both operands are values of
floats, so that only the quotient is rounded and a float is read as it was written.
-/

namespace SourceRecipe.Json

open SourceRecipe.Text SourceRecipe.Binary64

/-- Digits below the bound are all taken. -/
theorem takeDigits_eq {digits : List Char} {start : ℕ}
    (small : digitsValueFrom start digits < wordBound) :
    takeDigits start digits = (digitsValueFrom start digits, digits.length, 0) := by
  induction digits generalizing start with
  | nil => rfl
  | cons c others ih =>
      have next : 10 * start + digitValue c < wordBound :=
        (le_digitsValueFrom others _).trans_lt small
      rw [takeDigits, if_pos next, ih small]
      rfl

section Point

variable {whole fraction : List Char} (wholeRow : IsRow whole) (fractionRow : IsRow fraction)

include wholeRow fractionRow

/-- A literal with a point has two rows of digits. -/
theorem Literal.ofText_point :
    Literal.ofText (whole ++ '.' :: fraction) = ⟨false, whole, some fraction, none⟩ := by
  have point : ∀ c ∈ ('.' :: fraction).head?, c.isDigit = false := by
    intro c first
    cases first
    rfl
  have plain : ((whole ++ '.' :: fraction).head? == some '-') = false := by
    obtain ⟨c, others, written, digit⟩ := wholeRow.exists_cons ('.' :: fraction)
    rw [written, List.head?_cons]
    refine beq_false_of_ne fun same => ?_
    cases same
    cases digit
  have digits : fraction.takeWhile Char.isDigit = fraction ∧
      fraction.dropWhile Char.isDigit = [] := by
    constructor
    · exact List.takeWhile_eq_self_iff.mpr fractionRow.inside
    · exact List.dropWhile_eq_nil_iff.mpr fractionRow.inside
  rw [Literal.ofText, plain, if_neg Bool.false_ne_true,
    takeWhile_append_of_ends wholeRow.inside point,
    dropWhile_append_of_ends wholeRow.inside point]
  simp [digits.1, digits.2]

/-- A literal whose digits and whose power of ten are values of floats is read as the nearest
float. -/
theorem float?_point (some : 0 < digitsValue (whole ++ fraction))
    (few : digitsValue (whole ++ fraction) < 2 ^ 53) (short : fraction.length ≤ 22) :
    (Literal.ofText (whole ++ '.' :: fraction)).float? =
      .some (ofMagnitude false
        (nearestTo (digitsValue (whole ++ fraction) * 10 ^ (-(fraction.length : ℤ))))) := by
  have value : digitsValueFrom (digitsValueFrom 0 whole) fraction =
      digitsValue (whole ++ fraction) := List.foldl_append.symm
  have inside : digitsValue (whole ++ fraction) < wordBound := few.trans (by decide)
  have front : digitsValueFrom 0 whole < wordBound :=
    (le_digitsValueFrom fraction _).trans_lt (value.trans_lt inside)
  rw [Literal.ofText_point wholeRow fractionRow, Literal.float?]
  dsimp only
  rw [takeDigits_eq front]
  dsimp only
  rw [if_neg (by simp), Option.getD_some, takeDigits_eq (value.trans_lt inside), value]
  have length : 0 < fraction.length := List.length_pos_iff.mpr fractionRow.some
  have power : (0 : ℤ) - fraction.length + 0 = -(fraction.length : ℤ) := by omega
  change (scale 8 _ ((0 : ℤ) - fraction.length + 0)).map _ = _
  rw [power, scale, if_pos (by omega), if_neg (by omega), Int.natAbs_neg, Int.natAbs_natCast,
    toFloat_div_tenPower some few short]
  rfl

end Point

/-- The digits of a short decimal are a small number, and few of them stand behind the point. -/
theorem digitsValue_lt_of_spells {decimal : Decimal} {whole fraction : List Char}
    (spells : Spells whole fraction decimal.value)
    (places : (fraction.length : ℤ) = max 1 (-decimal.power)) (few : decimal.digits < 10 ^ 15)
    (low : -5 ≤ decimal.exponent) (high : decimal.exponent < 14) :
    digitsValue (whole ++ fraction) < 10 ^ 15 ∧ fraction.length ≤ 22 := by
  have length : (numeral decimal.digits).length ≤ 15 := by
    rw [numeral_eq_toDigits, Nat.length_toDigits_le_iff (by decide) (by decide)]
    exact few
  rw [Decimal.exponent] at low high
  refine ⟨?_, by omega⟩
  obtain ⟨shift, shifted⟩ : ∃ shift : ℕ, decimal.power + fraction.length = shift :=
    ⟨(decimal.power + fraction.length).toNat, by omega⟩
  have value : digitsValue (whole ++ fraction) = decimal.digits * 10 ^ shift := by
    have ten : (10 : ℚ) ≠ 0 := by norm_num
    have same := spells.value
    rw [zpow_neg, ← div_eq_mul_inv, div_eq_iff (by positivity), Decimal.value, mul_assoc,
      ← zpow_add₀ ten, shifted, zpow_natCast] at same
    exact_mod_cast same
  have bound : digitsValue (numeral decimal.digits) < 10 ^ (numeral decimal.digits).length :=
    digitsValue_lt fun _ => isDigit_of_mem_numeral
  rw [digitsValue_numeral] at bound
  rw [value]
  -- Zeros are added behind the digits only where these have no places of their own.
  rcases Nat.eq_zero_or_pos shift with none | some
  · rwa [none, pow_zero, mul_one]
  · calc decimal.digits * 10 ^ shift
        < 10 ^ (numeral decimal.digits).length * 10 ^ shift := by gcongr
      _ = 10 ^ ((numeral decimal.digits).length + shift) := (pow_add _ _ _).symm
      _ ≤ 10 ^ 15 := Nat.pow_le_pow_right (by decide) (by omega)

/-- Whether a float is positive and written without an exponent, with at most fifteen digits of
which at most fourteen stand before the point. -/
structure IsShort (x : Float) : Prop extends IsPositive x where
  few : (shortest .even (magnitude x)).digits < 10 ^ 15
  low : -5 ≤ (shortest .even (magnitude x)).exponent
  high : (shortest .even (magnitude x)).exponent < 14

/-- A short float is read as it was written. -/
theorem float?_ofFloat {x : Float} (short : IsShort x) : float? (ofFloat x) = some x := by
  obtain ⟨infinite, number⟩ := isInf_isNaN_eq x
  rw [decide_eq_false short.finite.ne] at infinite
  rw [decide_eq_false short.finite.le.not_gt] at number
  have range : (shortest .even (magnitude x)).digits = 0 ∨
      (-5 ≤ (shortest .even (magnitude x)).exponent ∧
        (shortest .even (magnitude x)).exponent < 16) :=
    .inr ⟨short.low, short.high.trans (by decide)⟩
  obtain ⟨whole, fraction, written, spells, places⟩ :=
    (shortest .even (magnitude x)).positional_spells (power_shortest_of_zero short.finite)
  obtain ⟨few, length⟩ := digitsValue_lt_of_spells spells places short.few short.low short.high
  have some : 0 < digitsValue (whole ++ fraction) := by
    refine Nat.pos_of_ne_zero fun none => short.some ?_
    rw [← nearestTo_shortest .even short.finite, ← spells.value, none, Nat.cast_zero, zero_mul,
      nearestTo_zero]
  have text : compactText x = whole ++ '.' :: fraction := by
    rw [compactText, if_pos range, signed_eq_withSign, short.plain, written]
    rfl
  have read := float?_point ⟨spells.someWhole, spells.wholeDigits⟩
    ⟨spells.someFraction, spells.fractionDigits⟩ some (few.trans (by norm_num)) length
  rw [spells.value] at read
  rw [ofFloat, number, infinite, if_neg (by decide), float?, text, read,
    nearestTo_shortest .even short.finite, ← short.plain, ofMagnitude_magnitude]

end SourceRecipe.Json
