import SourceRecipe.Number.Shortest
import SourceRecipe.Proofs.Number.Nearest
import SourceRecipe.Proofs.Text.Padding

/-!
# Decimals that read back

The decimal that a number is written with has that number as the nearest one.  The search for few
digits asks for this, the exact decimal that stands in for it has the very value, and the zeros
taken off at the end change no value.  Written with a point, a decimal is two rows of digits whose
value is told by where the point stands.
-/

namespace SourceRecipe.Binary64

open SourceRecipe.Text

/-! ## Values of decimals -/

def Decimal.value (decimal : Decimal) : ℚ :=
  decimal.digits * 10 ^ decimal.power

theorem Decimal.value_strip (fuel : ℕ) (decimal : Decimal) :
    (Decimal.strip fuel decimal).value = decimal.value := by
  induction fuel generalizing decimal with
  | zero => rfl
  | succ fuel ih =>
      rw [Decimal.strip]
      split
      case isTrue zeros =>
        have tens : ((decimal.digits / 10 * 10 : ℕ) : ℚ) = decimal.digits := by
          rw [Nat.div_mul_cancel (Nat.dvd_of_mod_eq_zero zeros.2)]
        rw [ih, Decimal.value, Decimal.value, ← tens, zpow_add_one₀ (by norm_num), Nat.cast_mul,
          Nat.cast_ofNat]
        ring
      case isFalse => rfl

/-- What the search for a number of digits finds has the number as the nearest one. -/
theorem nearestTo_of_decimalOf? {tie : Tie} {bits width : ℕ} {decimal : Decimal}
    (found : decimalOf? tie bits width = some decimal) : nearestTo decimal.value = bits := by
  rw [Decimal.value, ← nearestDecimal_eq]
  unfold decimalOf? at found
  dsimp only at found
  -- Whichever neighbour is tried first, each of the two is taken only if it reads back.
  split at found
  all_goals
    split at found
    case isTrue near =>
      cases found
      exact beq_iff_eq.mp near
    case isFalse =>
      split at found
      case isTrue far =>
        cases found
        exact beq_iff_eq.mp far
      case isFalse => cases found

theorem value_exactDecimal (bits : ℕ) : (exactDecimal bits).value = valueOf bits := by
  rw [exactDecimal, valueOf]
  generalize decode bits = number
  obtain ⟨m, q⟩ := number
  dsimp only
  split
  case isTrue nonneg =>
    rw [Decimal.value, zpow_zero, mul_one, Nat.cast_mul, cast_twoTo, zpow_of_nonneg nonneg]
  case isFalse neg =>
    have fives : ((Nat.pow 5 (-q).toNat : ℕ) : ℚ) = 5 ^ (-q).toNat := Nat.cast_pow 5 _
    have ten : (10 : ℚ) = 2 * 5 := by norm_num
    rw [Decimal.value, zpow_of_neg neg, zpow_of_neg neg, Nat.cast_mul, fives, ten, mul_pow]
    field_simp

/-- A finite number is the nearest one to the decimal that it is written with. -/
theorem nearestTo_shortest (tie : Tie) {bits : ℕ} (finite : bits < infinity) :
    nearestTo (shortest tie bits).value = bits := by
  rw [shortest]
  by_cases zero : bits = 0
  · rw [if_pos zero, zero, Decimal.value, Nat.cast_zero, zero_mul, nearestTo_zero]
  · rw [if_neg zero, Decimal.value_strip]
    cases search : (List.range 17).findSome? fun n => decimalOf? tie bits (n + 1) with
    | none => exact (value_exactDecimal bits).symm ▸ nearestTo_valueOf finite
    | some decimal =>
        obtain ⟨width, _, found⟩ := List.exists_of_findSome?_eq_some search
        exact nearestTo_of_decimalOf? found

/-- Only zero is written with no digits but zero. -/
theorem power_shortest_of_zero {tie : Tie} {bits : ℕ} (finite : bits < infinity)
    (zero : (shortest tie bits).digits = 0) : (shortest tie bits).power = 0 := by
  have nearest := nearestTo_shortest tie finite
  rw [Decimal.value, zero, Nat.cast_zero, zero_mul, nearestTo_zero] at nearest
  rw [← nearest]
  rfl

/-! ## Texts of decimals -/

/-- Two rows of digits that spell a number with a point between them. -/
structure Spells (whole fraction : List Char) (x : ℚ) : Prop where
  wholeDigits : ∀ c ∈ whole, c.isDigit = true
  fractionDigits : ∀ c ∈ fraction, c.isDigit = true
  someWhole : whole ≠ []
  someFraction : fraction ≠ []
  /-- There is no zero in front of other digits. -/
  lead : whole.head? = some '0' → whole = ['0']
  value : (digitsValue (whole ++ fraction) : ℚ) * 10 ^ (-(fraction.length : ℤ)) = x

theorem isDigit_of_mem_zeros (count : ℕ) :
    ∀ c ∈ List.replicate count '0', c.isDigit = true := by
  intro c member
  rw [List.eq_of_mem_replicate member]
  rfl

section Forms

variable {digits : ℕ}

/-- The point stands behind the digits and the zeros that the power adds. -/
theorem spells_of_nonneg {power : ℤ} (nonneg : 0 ≤ power) (zero : digits = 0 → power = 0) :
    Spells (numeral digits ++ List.replicate power.toNat '0') ['0'] (digits * 10 ^ power) := by
  have some := numeral_ne_nil digits
  refine ⟨List.forall_mem_append.mpr ⟨fun _ => isDigit_of_mem_numeral, isDigit_of_mem_zeros _⟩,
    List.forall_mem_singleton.mpr rfl, List.append_ne_nil_of_left_ne_nil some _,
    List.cons_ne_nil _ _, ?_, ?_⟩
  · intro first
    rw [List.head?_append_of_ne_nil _ some] at first
    have none := numeral_of_zero_first first
    rw [none, zero none]
    rfl
  · rw [digitsValue_append, digitsValue_append, digitsValue_numeral, digitsValue_zeros,
      List.length_replicate, zpow_of_nonneg nonneg]
    push_cast
    rw [show ((digitsValue ['0'] : ℕ) : ℚ) = 0 from Nat.cast_zero]
    norm_num
    ring

variable {places : ℕ}

/-- The point stands between the digits. -/
theorem spells_of_lt (zero : digits = 0 → places = 0) (some : 0 < places)
    (few : places < (numeral digits).length) :
    Spells ((numeral digits).take ((numeral digits).length - places))
      ((numeral digits).drop ((numeral digits).length - places))
      (digits * 10 ^ (-(places : ℤ))) := by
  have length : ((numeral digits).drop ((numeral digits).length - places)).length = places := by
    rw [List.length_drop]
    omega
  refine ⟨fun c member => isDigit_of_mem_numeral (List.mem_of_mem_take member),
    fun c member => isDigit_of_mem_numeral (List.mem_of_mem_drop member), ?_, ?_, ?_, ?_⟩
  · intro nothing
    rcases List.take_eq_nil_iff.mp nothing with none | none
    · omega
    · exact numeral_ne_nil digits none
  · intro nothing
    rw [nothing, List.length_nil] at length
    omega
  · intro first
    have lead : (numeral digits).head? = .some '0' := by
      rw [List.head?_take] at first
      split at first
      · cases first
      · exact first
    exact absurd (zero (numeral_of_zero_first lead)) some.ne'
  · rw [List.take_append_drop, length, digitsValue_numeral]

/-- The point stands before the digits and some zeros. -/
theorem spells_of_not_lt (many : ¬ places < (numeral digits).length) :
    Spells ['0'] (List.replicate (places - (numeral digits).length) '0' ++ numeral digits)
      (digits * 10 ^ (-(places : ℤ))) := by
  have length : (List.replicate (places - (numeral digits).length) '0' ++
      numeral digits).length = places := by
    rw [List.length_append, List.length_replicate]
    omega
  refine ⟨List.forall_mem_singleton.mpr rfl,
    List.forall_mem_append.mpr ⟨isDigit_of_mem_zeros _, fun _ => isDigit_of_mem_numeral⟩,
    List.cons_ne_nil _ _, List.append_ne_nil_of_right_ne_nil _ (numeral_ne_nil digits),
    fun _ => rfl, ?_⟩
  rw [digitsValue_append, digitsValue_append, digitsValue_zeros, digitsValue_numeral, length,
    show digitsValue ['0'] = 0 from rfl, Nat.zero_mul, Nat.zero_mul, Nat.zero_add, Nat.zero_add]

end Forms

/-- A decimal is written as two rows of digits that spell its value; the second one has as many
places as the power asks for, and one at least. -/
theorem Decimal.positional_spells (decimal : Decimal)
    (zero : decimal.digits = 0 → decimal.power = 0) :
    ∃ whole fraction, decimal.positional = whole ++ '.' :: fraction ∧
      Spells whole fraction decimal.value ∧ (fraction.length : ℤ) = max 1 (-decimal.power) := by
  rw [positional, value]
  dsimp only
  by_cases nonneg : 0 ≤ decimal.power
  · rw [if_pos nonneg]
    exact ⟨_, _, rfl, spells_of_nonneg nonneg zero, by rw [List.length_singleton]; omega⟩
  · rw [if_neg nonneg]
    have exponent : decimal.power = -((-decimal.power).toNat : ℤ) := by omega
    by_cases few : (-decimal.power).toNat < (numeral decimal.digits).length
    · rw [if_pos few]
      have spells := spells_of_lt (fun none => by rw [zero none]; rfl) (by omega) few
      rw [← exponent] at spells
      exact ⟨_, _, rfl, spells, by rw [List.length_drop]; omega⟩
    · rw [if_neg few]
      have spells := spells_of_not_lt few
      rw [← exponent] at spells
      refine ⟨_, _, rfl, spells, ?_⟩
      rw [List.length_append, List.length_replicate]
      omega

end SourceRecipe.Binary64
