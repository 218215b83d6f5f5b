import Mathlib
import SourceRecipe.Proofs.Number.Floats
import SourceRecipe.Proofs.Time.Reading
import SourceRecipe.Settings.Data

/-!
# Numbers in TOML read back

A number that is written into a TOML document is one token, no token of a time, and stands for the
number.  The float that a row of digits stands for is the nearest one, also where its power of ten
is not worked out.
-/

namespace SourceRecipe.Toml

open SourceRecipe.Text SourceRecipe.Binary64

/-! ## The float nearest to a row of digits -/

theorem digitsValue_dropZeros (digits : List Char) :
    digitsValue (digits.dropWhile (· == '0')) = digitsValue digits := by
  have front : digits.takeWhile (· == '0') =
      List.replicate (digits.takeWhile (· == '0')).length '0' := by
    apply List.eq_replicate_of_mem
    intro c member
    exact beq_iff_eq.mp (of_mem_takeWhile (p := (· == '0')) member)
  conv => rhs; rw [← List.takeWhile_append_dropWhile (p := (· == '0')) (l := digits)]
  rw [digitsValue_append, front, digitsValue_zeros, Nat.zero_mul, Nat.zero_add]

/-- The number of digits after the zeros in front tells the size of a value. -/
theorem digitsValue_bounds {digits : List Char} (allDigits : ∀ c ∈ digits, c.isDigit = true)
    (some : digits ≠ []) (lead : digits.head? ≠ .some '0') :
    10 ^ (digits.length - 1) ≤ digitsValue digits ∧ digitsValue digits < 10 ^ digits.length := by
  refine ⟨?_, digitsValue_lt allDigits⟩
  obtain ⟨c, rest, rfl⟩ := List.exists_cons_of_ne_nil some
  have digit := isDigit_iff.mp (allDigits c List.mem_cons_self)
  have positive : 1 ≤ digitsValue [c] := by
    have other : c.toNat ≠ 48 := by
      intro zero
      have same : c = '0' := Char.toNat_inj.mp zero
      exact lead (same ▸ rfl)
    change 1 ≤ 10 * 0 + (c.toNat - 48)
    omega
  rw [← List.singleton_append, digitsValue_append]
  calc 10 ^ rest.length = 1 * 10 ^ rest.length := (Nat.one_mul _).symm
    _ ≤ digitsValue [c] * 10 ^ rest.length := Nat.mul_le_mul_right _ positive
    _ ≤ _ := Nat.le_add_right _ _

theorem two_pow_le_ten_pow {m n : ℕ} (small : m ≤ 3 * n) : (2 : ℚ) ^ m ≤ 10 ^ n :=
  calc (2 : ℚ) ^ m ≤ 2 ^ (3 * n) := pow_le_pow_right₀ one_le_two small
    _ = (2 ^ 3) ^ n := pow_mul 2 3 n
    _ ≤ 10 ^ n := by gcongr; norm_num

/-- The float nearest to a row of digits and a power of ten, however large or small. -/
theorem nearest_eq (negative : Bool) {digits : List Char}
    (allDigits : ∀ c ∈ digits, c.isDigit = true) (power : ℤ) :
    nearest negative digits power =
      ofMagnitude negative (nearestTo (digitsValue digits * 10 ^ power)) := by
  rw [← digitsValue_dropZeros, nearest]
  have inside : ∀ c ∈ digits.dropWhile (· == '0'), c.isDigit = true :=
    fun c member => allDigits c (List.dropWhile_sublist _ |>.mem member)
  have lead : (digits.dropWhile (· == '0')).head? ≠ some '0' := by
    intro zero
    have other := of_mem_head?_dropWhile (Option.mem_def.mpr zero)
    exact absurd other (by decide)
  generalize digits.dropWhile (· == '0') = significant at inside lead
  by_cases none : significant = []
  · rw [if_pos (.inl (by rw [none]; rfl)), none, show digitsValue [] = 0 from rfl, Nat.cast_zero,
      zero_mul, nearestTo_zero]
  · obtain ⟨least, most⟩ := digitsValue_bounds inside none lead
    have length : 0 < significant.length := List.length_pos_of_ne_nil none
    have low : (10 : ℚ) ^ ((significant.length : ℤ) - 1) ≤ digitsValue significant := by
      rw [← Nat.cast_pred length, zpow_natCast]
      exact_mod_cast least
    have high : (digitsValue significant : ℚ) < 10 ^ (significant.length : ℤ) := by
      rw [zpow_natCast]
      exact_mod_cast most
    by_cases tiny : (significant.length : ℤ) + power < -400
    · rw [if_pos (.inr tiny), nearestTo_of_tiny (by positivity)]
      calc (digitsValue significant : ℚ) * 10 ^ power
          < 10 ^ (significant.length : ℤ) * 10 ^ power := by gcongr
        _ = 10 ^ ((significant.length : ℤ) + power) := (zpow_add₀ (by norm_num) _ _).symm
        _ ≤ 10 ^ (-401 : ℤ) := zpow_le_zpow_right₀ (by norm_num) (by omega)
        _ = (10 ^ 401)⁻¹ := by rw [zpow_neg, zpow_ofNat]
        _ ≤ (2 ^ 1075)⁻¹ :=
            inv_anti₀ (by positivity) (two_pow_le_ten_pow (by decide))
        _ = 2 ^ (leastExponent - 1) := by rw [leastExponent, ← zpow_natCast, ← zpow_neg]; rfl
    · have worked : ¬ (significant.isEmpty = true ∨ (significant.length : ℤ) + power < -400) := by
        rintro (nothing | small)
        · exact none (List.isEmpty_iff.mp nothing)
        · exact tiny small
      rw [if_neg worked]
      by_cases huge : 400 < (significant.length : ℤ) + power
      · rw [if_pos huge, nearestTo_of_huge]
        calc (2 : ℚ) ^ (1024 : ℤ) ≤ 10 ^ (400 : ℤ) := by
              rw [zpow_ofNat, zpow_ofNat]
              exact two_pow_le_ten_pow (by decide)
          _ ≤ 10 ^ ((significant.length : ℤ) - 1 + power) :=
              zpow_le_zpow_right₀ (by norm_num) (by omega)
          _ = 10 ^ ((significant.length : ℤ) - 1) * 10 ^ power := zpow_add₀ (by norm_num) _ _
          _ ≤ digitsValue significant * 10 ^ power := by gcongr
      · rw [if_neg huge, ofDecimal, nearestDecimal_eq]

/-! ## Tokens -/

/-- A number is read from digits, of which it leaves the rest. -/
theorem suffix_of_readNumber {least most n : ℕ} {text rest : List Char}
    (read : Time.readNumber least most text = some (n, rest)) : rest <:+ text := by
  obtain ⟨digits, _, whole, _⟩ := Time.readNumber_eq_some read
  exact ⟨digits, whole.symm⟩

theorem mem_of_readMark {mark : Char} {text rest : List Char}
    (read : Time.readMark mark text = some rest) : mark ∈ text := by
  cases text with
  | nil => cases read
  | cons c others =>
      rw [Time.readMark] at read
      split at read
      case isTrue same => exact same ▸ List.mem_cons_self
      case isFalse => cases read

/-- A text that begins with a date has a dash. -/
theorem afterDate?_eq_none {text : List Char} (dash : '-' ∉ text) : afterDate? text = none := by
  rw [afterDate?]
  cases number : Time.readNumber 4 4 text with
  | none => rfl
  | some read =>
      obtain ⟨year, rest⟩ := read
      rw [Option.bind_eq_bind, Option.bind_some]
      dsimp only
      cases mark : Time.readMark '-' rest with
      | none => rfl
      | some others =>
          exact absurd ((suffix_of_readNumber number).subset (mem_of_readMark mark)) dash

theorem afterDate?_of_dash (text : List Char) : afterDate? ('-' :: text) = none := by
  cases text <;> rfl

/-- A text that begins with a time of day has a colon. -/
theorem afterClock?_eq_none {text : List Char} (colon : ':' ∉ text) : afterClock? text = none := by
  rw [afterClock?]
  cases number : Time.readNumber 2 2 text with
  | none => rfl
  | some read =>
      obtain ⟨hour, rest⟩ := read
      rw [Option.bind_eq_bind, Option.bind_some]
      dsimp only
      cases mark : Time.readMark ':' rest with
      | none => rfl
      | some others =>
          exact absurd ((suffix_of_readNumber number).subset (mem_of_readMark mark)) colon

/-- A token that is no date, no time and no truth value stands for a number or nothing. -/
theorem readScalar_append {token rest : List Char} (inside : ∀ c ∈ token, isTokenChar c = true)
    (date : afterDate? token = none) (plain : ':' ∉ token ∧ 't' ∉ token ∧ 'l' ∉ token)
    (ends : ∀ c ∈ rest.head?, isTokenChar c = false) :
    readScalar (token ++ rest) = (number? token).map fun value => (value, rest) := by
  have cut : readToken (token ++ rest) = (token, rest) := by
    rw [readToken, takeWhile_append_of_ends inside ends, dropWhile_append_of_ends inside ends,
      date]
  have notTrue : token ≠ "true".toList := fun same => plain.2.1 (same ▸ by decide)
  have notFalse : token ≠ "false".toList := fun same => plain.2.2 (same ▸ by decide)
  have notTime : isTime token = false := by
    rw [isTime, afterClock?_eq_none plain.1, date]
    rfl
  rw [readScalar, cut]
  dsimp only
  rw [ofToken?, if_neg notTrue, if_neg notFalse, notTime, if_neg Bool.false_ne_true]

def IsFigure (c : Char) : Prop :=
  c.isDigit = true ∨ c = '.'

instance (c : Char) : Decidable (IsFigure c) :=
  inferInstanceAs (Decidable (_ ∨ _))

section Figures

variable {text : List Char} (figures : ∀ c ∈ text, IsFigure c) (negative : Bool)

include figures

theorem not_mem_withSign {c : Char} (dash : c ≠ '-') (other : ¬ IsFigure c) :
    c ∉ withSign negative text := by
  intro member
  rw [withSign] at member
  split at member
  · rcases List.mem_cons.mp member with same | inside
    · exact dash same
    · exact other (figures c inside)
  · exact other (figures c member)

theorem afterDate?_withSign : afterDate? (withSign negative text) = none := by
  rw [withSign]
  split
  · exact afterDate?_of_dash text
  · apply afterDate?_eq_none
    intro dash
    exact absurd (figures '-' dash) (by decide)

theorem isTokenChar_of_mem_withSign : ∀ c ∈ withSign negative text, isTokenChar c = true := by
  intro c member
  have differs {d : Char} (dash : d ≠ '-') (other : ¬ IsFigure d) : c ≠ d :=
    fun same => not_mem_withSign figures negative dash other (same ▸ member)
  simp only [isTokenChar, Bool.not_eq_true', Bool.or_eq_false_iff, beq_eq_false_iff_ne]
  and_intros <;> exact differs (by decide) (by decide)

/-- A text of digits and points, with or without a sign, stands for a number or nothing. -/
theorem readScalar_withSign {rest : List Char} (ends : ∀ c ∈ rest.head?, isTokenChar c = false) :
    readScalar (withSign negative text ++ rest) =
      (number? (withSign negative text)).map fun value => (value, rest) := by
  have absent {c : Char} := not_mem_withSign (c := c) figures negative
  exact readScalar_append (isTokenChar_of_mem_withSign figures negative)
    (afterDate?_withSign figures negative)
    ⟨absent (by decide) (by decide), absent (by decide) (by decide), absent (by decide) (by decide)⟩
    ends

theorem signed_withSign : signed (withSign negative text) = (negative, text) := by
  cases negative with
  | true => rfl
  | false =>
      change signed text = (false, text)
      cases text with
      | nil => rfl
      | cons c rest =>
          unfold signed
          split
          case h_1 same =>
            cases same
            exact absurd (figures '-' List.mem_cons_self) (by decide)
          case h_2 same =>
            cases same
            exact absurd (figures '+' List.mem_cons_self) (by decide)
          case h_3 => rfl

theorem isSpaced_of_figures (isDigit : Char → Bool) (afterDigit : Bool) :
    isSpaced isDigit afterDigit text = true := by
  induction text generalizing afterDigit with
  | nil => rfl
  | cons c rest ih =>
      obtain ⟨first, others⟩ := List.forall_mem_cons.mp figures
      have digit : c ≠ '_' := by
        rintro rfl
        exact absurd first (by decide)
      rw [isSpaced, if_neg digit]
      exact ih others _

theorem isWellSpaced_withSign (isDigit : Char → Bool) :
    isWellSpaced isDigit (withSign negative text) = true := by
  rw [isWellSpaced, signed_withSign figures]
  exact isSpaced_of_figures figures isDigit _

/-- A text of digits and points is a float or a whole number to base ten. -/
theorem number?_withSign :
    number? (withSign negative text) =
      if text.any isFloatMark then
        (scaled? text).map fun (digits, power) => ofFloat (nearest negative digits power)
      else whole? negative text := by
  have notInf : text ≠ "inf".toList := fun same =>
    absurd (figures 'n' (same ▸ by decide)) (by decide)
  have notNaN : text ≠ "nan".toList := fun same =>
    absurd (figures 'n' (same ▸ by decide)) (by decide)
  have noBase {c : Char} (dash : c ≠ '-') (other : ¬ IsFigure c) {rest : List Char} :
      withSign negative text ≠ '0' :: c :: rest := fun same =>
    not_mem_withSign figures negative dash other (same ▸ by simp)
  rw [number?, signed_withSign figures]
  dsimp only
  rw [if_neg notInf, if_neg notNaN]
  split
  case h_1 same => exact absurd same (noBase (by decide) (by decide))
  case h_2 same => exact absurd same (noBase (by decide) (by decide))
  case h_3 same => exact absurd same (noBase (by decide) (by decide))
  case h_4 => rw [if_pos (isWellSpaced_withSign figures negative _),
    if_pos (isWellSpaced_withSign figures negative _)]

end Figures

/-! ## Whole numbers -/

theorem isFigure_of_isDigit {text : List Char} (digits : ∀ c ∈ text, c.isDigit = true) :
    ∀ c ∈ text, IsFigure c :=
  fun c member => .inl (digits c member)

theorem isGroupChar_of_isDigit {c : Char} (digit : c.isDigit = true) : isGroupChar c = true := by
  rw [isGroupChar, digit]
  rfl

theorem whole?_numeral {n : ℕ} (small : n < twoTo 128) :
    whole? false (numeral n) = some (.integer n) := by
  have inside : ∀ c ∈ numeral n, c.isDigit = true := fun _ => isDigit_of_mem_numeral
  have nothing : (numeral n).dropWhile Char.isDigit = [] := List.dropWhile_eq_nil_iff.mpr inside
  have plain : ¬ (numeral n = [] ∨ ((numeral n).head? = some '0' ∧ numeral n ≠ ['0'])) := by
    rintro (none | ⟨zero, other⟩)
    · exact numeral_ne_nil n none
    · rw [numeral_of_zero_first zero] at other
      exact other rfl
  have digits : (numeral n).all isGroupChar = true :=
    List.all_eq_true.mpr fun c member => isGroupChar_of_isDigit (inside c member)
  have range : inRange n = true := by
    rw [inRange, decide_eq_true_eq]
    omega
  unfold whole?
  rw [nothing]
  dsimp only
  rw [if_neg plain, if_pos digits, List.filter_eq_self.mpr inside, digitsValue_numeral,
    if_neg Bool.false_ne_true, ofInt, if_pos range]

/-- The digits of a number are read as the number. -/
theorem readScalar_numeral {n : ℕ} (small : n < twoTo 128) {rest : List Char}
    (ends : ∀ c ∈ rest.head?, isTokenChar c = false) :
    readScalar (numeral n ++ rest) = some (.integer n, rest) := by
  have figures := isFigure_of_isDigit fun c => isDigit_of_mem_numeral (n := n) (c := c)
  have noPoint : (numeral n).any isFloatMark = false := by
    rw [List.any_eq_false]
    intro c member mark
    have digit := isDigit_of_mem_numeral member
    simp only [isFloatMark, Bool.or_eq_true, beq_iff_eq] at mark
    rcases mark with (rfl | rfl) | rfl <;> exact absurd digit (by decide)
  change readScalar (withSign false (numeral n) ++ rest) = _
  rw [readScalar_withSign figures false ends, number?_withSign figures, noPoint,
    if_neg Bool.false_ne_true, whole?_numeral small]
  rfl

/-! ## Floats -/

theorem readGroup_append (digits rest : List Char) (allDigits : ∀ c ∈ digits, c.isDigit = true)
    (some : digits ≠ []) (ends : ∀ c ∈ rest.head?, isGroupChar c = false) :
    readGroup (digits ++ rest) = .some (digits, rest) := by
  have inside : ∀ c ∈ digits, isGroupChar c = true :=
    fun c member => isGroupChar_of_isDigit (allDigits c member)
  rw [readGroup, takeWhile_append_of_ends inside ends, dropWhile_append_of_ends inside ends,
    List.filter_eq_self.mpr allDigits]
  exact if_neg fun none => some (List.isEmpty_iff.mp none)

/-- Digits with a point between them are read as the digits and the places behind the point. -/
theorem scaled?_of_spells {whole fraction : List Char} {x : ℚ} (spells : Spells whole fraction x) :
    scaled? (whole ++ '.' :: fraction) =
      some (whole ++ fraction, -(fraction.length : ℤ)) := by
  have front := readGroup_append whole ('.' :: fraction) spells.wholeDigits spells.someWhole
    (by simp [isGroupChar])
  have back := readGroup_append fraction [] spells.fractionDigits spells.someFraction (by simp)
  have lead : ¬ ((whole ++ '.' :: fraction).head? = some '0' ∧ whole.length ≠ 1) := by
    rintro ⟨zero, long⟩
    rw [List.head?_append_of_ne_nil _ spells.someWhole] at zero
    exact long (by rw [spells.lead zero]; rfl)
  rw [List.append_nil] at back
  rw [scaled?, front]
  simp only [Option.bind_eq_bind, Option.bind_some]
  rw [if_neg lead]
  simp [back, exponent?]

/-- The three forms of the text of a float. -/
theorem floatText_cases (x : Float) :
    (x.isNaN = true ∧ floatText x = ['n', 'a', 'n']) ∨
      (x.isInf = true ∧ floatText x = withSign (isNegative x) ['i', 'n', 'f']) ∨
      (x.isNaN = false ∧ x.isInf = false ∧ ∃ whole fraction,
        floatText x = withSign (isNegative x) (whole ++ '.' :: fraction) ∧
          Spells whole fraction (shortest .up (magnitude x)).value) := by
  rw [floatText]
  cases nan : x.isNaN with
  | true => exact .inl ⟨rfl, rfl⟩
  | false =>
      cases infinite : x.isInf with
      | true => exact .inr (.inl ⟨rfl, rfl⟩)
      | false =>
          have below := magnitude_lt_infinity nan infinite
          obtain ⟨whole, fraction, written, spells, _⟩ :=
            (shortest .up (magnitude x)).positional_spells (power_shortest_of_zero below)
          refine .inr (.inr ⟨rfl, rfl, whole, fraction, ?_, spells⟩)
          change positionalText x = _
          rw [positionalText, written]
          rfl

theorem isFigure_of_spells {whole fraction : List Char} {x : ℚ}
    (spells : Spells whole fraction x) : ∀ c ∈ whole ++ '.' :: fraction, IsFigure c := by
  simp only [List.forall_mem_append, List.forall_mem_cons]
  exact ⟨isFigure_of_isDigit spells.wholeDigits, .inr rfl,
    isFigure_of_isDigit spells.fractionDigits⟩

/-- The text of a float is read as the float. -/
theorem readScalar_floatText (x : Float) {rest : List Char}
    (ends : ∀ c ∈ rest.head?, isTokenChar c = false) :
    readScalar (floatText x ++ rest) = some (.float x, rest) := by
  rcases floatText_cases x with ⟨nan, written⟩ | ⟨infinite, written⟩ |
    ⟨number, finite, whole, fraction, written, spells⟩
  · have same : (0.0 / 0.0 : Float) = x := eq_of_isNaN (by decide +kernel) nan
    rw [written, readScalar_append (by simp [isTokenChar]) (afterDate?_eq_none (by decide))
      (by decide) ends, ← same]
    rfl
  · have whole : ofMagnitude (isNegative x) infinity = x := by
      rw [← magnitude_of_isInf infinite, ofMagnitude_magnitude]
    rw [written]
    cases negative : isNegative x with
    | true =>
        change readScalar (['-', 'i', 'n', 'f'] ++ rest) = _
        rw [readScalar_append (by simp [isTokenChar]) (afterDate?_of_dash _) (by decide) ends,
          ← whole, negative]
        rfl
    | false =>
        change readScalar (['i', 'n', 'f'] ++ rest) = _
        rw [readScalar_append (by simp [isTokenChar]) (afterDate?_eq_none (by decide)) (by decide)
          ends, ← whole, negative]
        rfl
  · have figures := isFigure_of_spells spells
    have point : (whole ++ '.' :: fraction).any isFloatMark = true :=
      List.any_eq_true.mpr ⟨'.', by simp, rfl⟩
    have digits : ∀ c ∈ whole ++ fraction, c.isDigit = true :=
      List.forall_mem_append.mpr ⟨spells.wholeDigits, spells.fractionDigits⟩
    rw [written, readScalar_withSign figures _ ends, number?_withSign figures, if_pos point,
      scaled?_of_spells spells, Option.map_some, Option.map_some]
    dsimp only
    rw [nearest_eq _ digits, spells.value, ofMagnitude_shortest _ number finite, ofFloat, finite,
      if_neg Bool.false_ne_true]

/-- The text of a float begins as a token. -/
theorem head?_floatText (x : Float) :
    ∃ c, (floatText x).head? = some c ∧ (IsFigure c ∨ c = '-' ∨ c = 'i' ∨ c = 'n') := by
  rcases floatText_cases x with ⟨_, written⟩ | ⟨_, written⟩ | ⟨_, _, whole, fraction, written, spells⟩
  · exact ⟨'n', by rw [written]; rfl, by decide⟩
  · rw [written, withSign]
    split
    · exact ⟨'-', rfl, by decide⟩
    · exact ⟨'i', rfl, by decide⟩
  · rw [written, withSign]
    split
    · exact ⟨'-', rfl, by decide⟩
    · obtain ⟨c, others, first⟩ := List.exists_cons_of_ne_nil spells.someWhole
      refine ⟨c, by rw [first]; rfl, .inl ?_⟩
      exact isFigure_of_spells spells c (by rw [first]; exact List.mem_cons_self)

end SourceRecipe.Toml
