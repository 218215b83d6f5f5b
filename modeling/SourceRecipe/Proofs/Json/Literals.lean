import SourceRecipe.Proofs.Json.RoundTrip
import SourceRecipe.Proofs.Number.Floats
import SourceRecipe.Settings.Data

/-!
# Literals of numbers in JSON

A literal is a row of digits with no zero in front, after which a fraction and an exponent may
stand.  The digits of a whole number are one, and so is the text of a finite float in either
notation.
-/

namespace SourceRecipe.Json

open SourceRecipe.Text SourceRecipe.Binary64

structure IsRow (digits : List Char) : Prop where
  some : digits ≠ []
  inside : ∀ c ∈ digits, c.isDigit = true

theorem isRow_numeral (n : ℕ) : IsRow (numeral n) :=
  ⟨numeral_ne_nil n, fun _ => isDigit_of_mem_numeral⟩

namespace IsRow

variable {row : List Char} (isRow : IsRow row)

include isRow

theorem isEmpty_eq_false : row.isEmpty = false :=
  Bool.eq_false_iff.mpr fun nothing => isRow.some (List.isEmpty_iff.mp nothing)

/-- A row is read up to the first character that is no digit. -/
theorem digits_append {rest : List Char} (ends : ∀ c ∈ rest.head?, c.isDigit = false) :
    digits (row ++ rest) = (row, rest) := by
  rw [digits, takeWhile_append_of_ends isRow.inside ends,
    dropWhile_append_of_ends isRow.inside ends]

theorem exists_cons (rest : List Char) :
    ∃ c others, row ++ rest = c :: others ∧ c.isDigit = true := by
  obtain ⟨c, others, rfl⟩ := List.exists_cons_of_ne_nil isRow.some
  exact ⟨c, others ++ rest, rfl, isRow.inside c List.mem_cons_self⟩

theorem append_ne_cons {mark : Char} (other : mark.isDigit = false) (rest tail : List Char) :
    row ++ rest ≠ mark :: tail := by
  obtain ⟨c, others, written, digit⟩ := isRow.exists_cons rest
  rw [written]
  intro same
  rw [(List.cons.inj same).1, other] at digit
  exact Bool.false_ne_true digit

end IsRow

/-- Whether a text is nothing, or a point with digits after it. -/
def IsFraction (text : List Char) : Prop :=
  text = [] ∨ ∃ row, text = '.' :: row ∧ IsRow row

/-- Whether a text is nothing, or a signed exponent after its letter. -/
def IsExponent (text : List Char) : Prop :=
  text = [] ∨ ∃ sign row, text = 'e' :: sign :: row ∧ (sign = '+' ∨ sign = '-') ∧ IsRow row

structure HasParts (whole fraction exponent : List Char) : Prop where
  row : IsRow whole
  /-- There is no zero in front of other digits. -/
  lead : whole.head? = some '0' → whole = ['0']
  isFraction : IsFraction fraction
  isExponent : IsExponent exponent

theorem readWhole_append {whole rest : List Char} (isRow : IsRow whole)
    (lead : whole.head? = some '0' → whole = ['0'])
    (ends : ∀ c ∈ rest.head?, c.isDigit = false) :
    readWhole (whole ++ rest) = some (whole, rest) := by
  have plain : ¬ ((whole.isEmpty ||
      (whole.head? == some '0' && decide (1 < whole.length))) = true) := by
    rw [isRow.isEmpty_eq_false, Bool.false_or, Bool.and_eq_true, beq_iff_eq, decide_eq_true_eq]
    rintro ⟨zero, long⟩
    rw [lead zero] at long
    exact absurd long (by decide)
  rw [readWhole, isRow.digits_append ends]
  exact if_neg plain

theorem readFraction_append {fraction rest : List Char}
    (part : IsFraction fraction)
    (ends : ∀ c ∈ rest.head?, c.isDigit = false ∧ c ≠ '.') :
    readFraction (fraction ++ rest) = some (fraction, rest) := by
  rcases part with rfl | ⟨row, rfl, isRow⟩
  · rw [List.nil_append]
    unfold readFraction
    split
    case h_1 => exact absurd rfl (ends '.' rfl).2
    case h_2 => rfl
  · rw [List.cons_append, readFraction, isRow.digits_append fun c member => (ends c member).1]
    dsimp only
    rw [isRow.isEmpty_eq_false, if_neg Bool.false_ne_true]

theorem readExponent_append {exponent rest : List Char} (part : IsExponent exponent)
    (ends : EndsNumber rest) : readExponent (exponent ++ rest) = some (exponent, rest) := by
  rcases part with rfl | ⟨sign, row, rfl, signs, isRow⟩
  · cases rest with
    | nil => rfl
    | cons c others =>
        obtain ⟨_, _, small, large⟩ := ends c rfl
        rw [List.nil_append, readExponent, if_neg (by rintro (same | same) <;> contradiction)]
  · have read : readSign (sign :: (row ++ rest)) = ([sign], row ++ rest) := by
      rcases signs with rfl | rfl <;> rfl
    rw [List.cons_append, List.cons_append, readExponent, if_pos (.inl rfl), read]
    dsimp only
    rw [isRow.digits_append fun c member => (ends c member).1]
    dsimp only
    rw [isRow.isEmpty_eq_false, if_neg Bool.false_ne_true]
    rfl

section Parts

variable {whole fraction exponent : List Char} (parts : HasParts whole fraction exponent)

include parts

theorem HasParts.exponent_ends {rest : List Char} (ends : EndsNumber rest) :
    ∀ c ∈ (exponent ++ rest).head?, c.isDigit = false ∧ c ≠ '.' := by
  intro c member
  rcases parts.isExponent with rfl | ⟨sign, row, rfl, _⟩
  · exact ⟨(ends c member).1, (ends c member).2.1⟩
  · cases member
    decide

theorem HasParts.fraction_ends {rest : List Char} (ends : EndsNumber rest) :
    ∀ c ∈ (fraction ++ (exponent ++ rest)).head?, c.isDigit = false := by
  intro c member
  rcases parts.isFraction with rfl | ⟨row, rfl, _⟩
  · exact (parts.exponent_ends ends c member).1
  · cases member
    rfl

/-- A literal is made of its parts, with or without a minus sign. -/
theorem isLiteral_of_parts (negative : Bool) :
    IsLiteral (withSign negative (whole ++ fraction ++ exponent)) := by
  have first {rest : List Char} (ends : EndsNumber rest) :=
    readWhole_append parts.row parts.lead (parts.fraction_ends ends)
  have second {rest : List Char} (ends : EndsNumber rest) :=
    readFraction_append parts.isFraction (parts.exponent_ends ends)
  have third {rest : List Char} (ends : EndsNumber rest) :=
    readExponent_append parts.isExponent ends
  cases negative with
  | true =>
      refine ⟨⟨'-', _, rfl, .inr rfl⟩, fun rest ends => ?_⟩
      rw [withSign, if_pos rfl, List.cons_append, List.append_assoc, List.append_assoc, readNumber]
      simp [first ends, second ends, third ends]
  | false =>
      obtain ⟨c, others, written, digit⟩ := parts.row.exists_cons (fraction ++ exponent)
      rw [withSign, if_neg Bool.false_ne_true]
      refine ⟨⟨c, others, by rw [List.append_assoc, written], .inl digit⟩, fun rest ends => ?_⟩
      rw [List.append_assoc, List.append_assoc, readNumber]
      · simp [first ends, second ends, third ends]
      · exact fun _ => parts.row.append_ne_cons rfl _ _

end Parts

/-! ## Whole numbers -/

/-- The digits of a number are a literal. -/
theorem isLiteral_numeral (n : ℕ) : IsLiteral (numeral n) := by
  have parts : HasParts (numeral n) [] [] := by
    refine ⟨isRow_numeral n, fun zero => ?_, .inl rfl, .inl rfl⟩
    rw [numeral_of_zero_first zero]
    rfl
  have literal := isLiteral_of_parts parts false
  rwa [List.append_nil, List.append_nil] at literal

theorem isWritable_ofNat (n : ℕ) : IsWritable (ofNat n) := by
  rw [ofNat, IsWritable]
  exact isLiteral_numeral n

/-! ## Floats -/

theorem isLiteral_positional {decimal : Decimal} (zero : decimal.digits = 0 → decimal.power = 0)
    (negative : Bool) : IsLiteral (withSign negative decimal.positional) := by
  obtain ⟨whole, fraction, written, spells, _⟩ := decimal.positional_spells zero
  have parts : HasParts whole ('.' :: fraction) [] :=
    ⟨⟨spells.someWhole, spells.wholeDigits⟩, spells.lead,
      .inr ⟨fraction, rfl, spells.someFraction, spells.fractionDigits⟩, .inl rfl⟩
  have literal := isLiteral_of_parts parts negative
  rwa [List.append_nil, ← written] at literal

theorem isLiteral_scientific (decimal : Decimal) (negative : Bool) :
    IsLiteral (withSign negative decimal.scientific) := by
  obtain ⟨first, others, written⟩ := List.exists_cons_of_ne_nil (numeral_ne_nil decimal.digits)
  have row := isRow_numeral decimal.digits
  rw [written] at row
  obtain ⟨firstDigit, otherDigits⟩ := List.forall_mem_cons.mp row.inside
  have whole : IsRow [first] := ⟨List.cons_ne_nil _ _, by simpa using firstDigit⟩
  have lead : [first].head? = some '0' → [first] = ['0'] := by
    intro zero
    cases zero
    rfl
  have exponent (n : ℤ) :
      IsExponent ('e' :: (if n < 0 then '-' else '+') :: numeral n.natAbs) := by
    refine .inr ⟨_, _, rfl, ?_, isRow_numeral _⟩
    split
    · exact .inr rfl
    · exact .inl rfl
  rw [Decimal.scientific, written]
  cases others with
  | nil =>
      exact isLiteral_of_parts ⟨whole, lead, .inl rfl, exponent _⟩ negative
  | cons second rest =>
      have fraction : IsRow (second :: rest) := ⟨List.cons_ne_nil _ _, otherDigits⟩
      exact isLiteral_of_parts ⟨whole, lead, .inr ⟨_, rfl, fraction⟩, exponent _⟩ negative

/-- A finite float is written as a literal. -/
theorem isLiteral_compactText {x : Float} (number : x.isNaN = false) (finite : x.isInf = false) :
    IsLiteral (compactText x) := by
  rw [compactText, signed_eq_withSign]
  split
  case isTrue =>
    exact isLiteral_positional
      (power_shortest_of_zero (magnitude_lt_infinity number finite)) _
  case isFalse => exact isLiteral_scientific _ _

/-- Every float can be written, what has no text as `null`. -/
theorem isWritable_ofFloat (x : Float) : IsWritable (ofFloat x) := by
  rw [ofFloat]
  split
  case isTrue => rw [IsWritable]; trivial
  case isFalse plain =>
    rw [Bool.not_eq_true, Bool.or_eq_false_iff] at plain
    rw [IsWritable]
    exact isLiteral_compactText plain.1 plain.2

end SourceRecipe.Json
