import Mathlib.Algebra.Group.Nat.Defs
import SourceRecipe.Number.Powers
import SourceRecipe.Text.Digits

/-!
# Digits and padded numbers

The value of a row of digits is told by its parts, and the digits of a number have that number as
their value and no zero in front.  A number written with zeros before its digits has digits only,
at least as many as asked for, and keeps its value.
-/

namespace SourceRecipe.Text

/-! ## Rows of digits -/

theorem isDigit_iff {c : Char} : c.isDigit = true ↔ 48 ≤ c.toNat ∧ c.toNat ≤ 57 := by
  simp [Char.isDigit, UInt32.le_iff_toNat_le]

theorem le_digitsValueFrom (digits : List Char) (start : Nat) :
    start ≤ digitsValueFrom start digits := by
  induction digits generalizing start with
  | nil => exact Nat.le_refl start
  | cons c rest ih =>
      calc start ≤ 10 * start + digitValue c := by omega
        _ ≤ digitsValueFrom (10 * start + digitValue c) rest := ih _

theorem digitsValueFrom_lt {digits : List Char} (allDigits : ∀ c ∈ digits, c.isDigit = true)
    (start : Nat) : digitsValueFrom start digits < (start + 1) * tenTo digits.length := by
  induction digits generalizing start with
  | nil =>
      rw [List.length_nil, tenTo, Nat.pow_eq, Nat.pow_zero, Nat.mul_one]
      exact Nat.lt_succ_self start
  | cons c rest ih =>
      obtain ⟨digit, others⟩ := List.forall_mem_cons.mp allDigits
      have small : digitValue c ≤ 9 := Nat.sub_le_iff_le_add.mpr (isDigit_iff.mp digit).2
      calc digitsValueFrom (10 * start + digitValue c) rest
          < (10 * start + digitValue c + 1) * tenTo rest.length := ih others _
        _ ≤ (start + 1) * 10 * tenTo rest.length := Nat.mul_le_mul_right _ (by omega)
        _ = (start + 1) * tenTo (c :: rest).length := by
            rw [List.length_cons, tenTo, tenTo, Nat.pow_eq, Nat.pow_eq, Nat.pow_succ, Nat.mul_assoc,
              Nat.mul_comm 10]

/-- A row of digits has a value with no more digits. -/
theorem digitsValue_lt {digits : List Char} (allDigits : ∀ c ∈ digits, c.isDigit = true) :
    digitsValue digits < 10 ^ digits.length := by
  have bound := digitsValueFrom_lt allDigits 0
  rwa [Nat.zero_add, Nat.one_mul] at bound

theorem digitsValue_append (front rest : List Char) :
    digitsValue (front ++ rest) = digitsValue front * 10 ^ rest.length + digitsValue rest := by
  change Nat.ofDigitChars 10 (front ++ rest) 0 = Nat.ofDigitChars 10 front 0 * 10 ^ rest.length +
    Nat.ofDigitChars 10 rest 0
  rw [Nat.ofDigitChars_append, Nat.ofDigitChars_eq_ofDigitChars_zero, Nat.mul_comm]

theorem digitsValue_zeros (count : Nat) : digitsValue (List.replicate count '0') = 0 :=
  Nat.ofDigitChars_replicate_zero

/-! ## The digits of a number -/

theorem numeral_eq_toDigits (n : Nat) : numeral n = Nat.toDigits 10 n :=
  Nat.toList_repr

theorem digitsValue_numeral (n : Nat) : digitsValue (numeral n) = n := by
  rw [numeral_eq_toDigits]
  exact Nat.ofDigitChars_ten_toDigits

theorem numeral_ne_nil (n : Nat) : numeral n ≠ [] := by
  rw [numeral_eq_toDigits]
  exact Nat.toDigits_ne_nil

/-- Only the digits of zero begin with a zero. -/
theorem numeral_of_zero_first {n : Nat} (zero : (numeral n).head? = some '0') : n = 0 := by
  obtain ⟨rest, whole⟩ := List.head?_eq_some_iff.mp zero
  have value : n = digitsValue rest := by
    rw [← digitsValue_numeral n, whole, ← List.singleton_append, digitsValue_append,
      show digitsValue ['0'] = 0 from rfl, Nat.zero_mul, Nat.zero_add]
  have digits : ∀ c ∈ rest, c.isDigit = true :=
    fun c member => isDigit_of_mem_numeral (whole ▸ List.mem_cons_of_mem '0' member)
  cases rest with
  | nil => exact value
  | cons c others =>
      have short : (numeral n).length ≤ (c :: others).length := by
        rw [numeral_eq_toDigits, Nat.length_toDigits_le_iff (by decide) (by simp)]
        exact value ▸ digitsValue_lt digits
      rw [whole] at short
      exact absurd short (Nat.not_succ_le_self _)

/-! ## Padded numbers -/

theorem isDigit_of_mem_padded {width n : Nat} {c : Char} (member : c ∈ padded width n) :
    c.isDigit = true := by
  rcases List.mem_append.mp member with zero | digit
  · rw [List.eq_of_mem_replicate zero]
    rfl
  · exact isDigit_of_mem_numeral digit

theorem length_padded (width n : Nat) :
    (padded width n).length = max width (numeral n).length := by
  rw [padded, List.length_append, List.length_replicate]
  omega

/-- A number that has no more digits than asked for is written with exactly so many. -/
theorem length_padded_of_lt {width n : Nat} (some : 0 < width) (small : n < 10 ^ width) :
    (padded width n).length = width := by
  have short := (Nat.length_toDigits_le_iff (b := 10) (by decide) some).mpr small
  rw [← numeral_eq_toDigits] at short
  rw [length_padded, Nat.max_eq_left short]

theorem padded_ne_nil (width n : Nat) : padded width n ≠ [] := by
  intro nothing
  have digits := (List.append_eq_nil_iff.mp nothing).2
  rw [numeral_eq_toDigits] at digits
  exact Nat.toDigits_ne_nil digits

theorem digitsValue_padded (width n : Nat) : digitsValue (padded width n) = n := by
  change Nat.ofDigitChars 10 (List.replicate (width - (numeral n).length) '0' ++ numeral n) 0 = n
  rw [Nat.ofDigitChars_append, Nat.ofDigitChars_replicate_zero, Nat.mul_zero, numeral_eq_toDigits,
    Nat.ofDigitChars_ten_toDigits]

/-- Numbers are told apart by their digits. -/
theorem numeral_inj {n other : Nat} : numeral n = numeral other ↔ n = other := by
  constructor
  · intro same
    rw [← digitsValue_numeral n, same, digitsValue_numeral]
  · rintro rfl
    rfl

end SourceRecipe.Text
