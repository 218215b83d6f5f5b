import SourceRecipe.Proofs.Toml.Quoted
import SourceRecipe.Proofs.Toml.Scalar

/-!
# TOML documents read back

A document that is written line by line is read line by line: a name with a value that is read
back makes a field, and a name in brackets opens a table.
-/

namespace SourceRecipe.Toml

open SourceRecipe.Text

/-! ## Values -/

structure IsValueText (text : List Char) (value : Toml) : Prop where
  blank : ∀ c ∈ text.head?, isBlank c = false
  some : text ≠ []
  read : ∀ fuel levels rest,
    readValue (fuel + 1) levels (text ++ '\n' :: rest) = .some (value, '\n' :: rest)

theorem isValueText_quoted (text : String) :
    IsValueText (quoted text.toList) (.string text) := by
  have written (rest : List Char) := readQuoted_quoted text.toList ('\n' :: rest) (by
    intro c member
    cases member
    decide)
  have first : (quoted text.toList).head? = some (Quoting.ofText text.toList).mark := by
    rw [quoted, Quoting.marks_eq]
    rfl
  refine ⟨?_, ?_, ?_⟩
  · intro c member
    rw [first] at member
    cases member
    rw [Quoting.mark]
    split <;> decide
  · intro nothing
    rw [nothing] at first
    cases first
  · intro fuel levels rest
    obtain ⟨tail, whole, read⟩ := written rest
    rw [whole]
    rw [String.ofList_toList] at read
    rw [Quoting.mark]
    cases escapes : (Quoting.ofText text.toList).escapes with
    | true =>
        rw [escapes] at read
        rw [if_pos rfl, readValue, read]
        rfl
    | false =>
        rw [escapes] at read
        rw [if_neg Bool.false_ne_true, readValue, read]
        rfl

/-- A value that begins as a number is read without quotes. -/
theorem isValueText_of_readScalar {text : List Char} {value : Toml} {c : Char}
    (first : text.head? = some c) (number : IsFigure c ∨ c = '-' ∨ c = 'i' ∨ c = 'n')
    (read : ∀ rest, readScalar (text ++ '\n' :: rest) = some (value, '\n' :: rest)) :
    IsValueText text value := by
  obtain ⟨others, rfl⟩ := List.head?_eq_some_iff.mp first
  refine ⟨?_, List.cons_ne_nil c others, ?_⟩
  · intro d member
    cases member
    rw [isBlank, Bool.or_eq_false_iff, beq_eq_false_iff_ne, beq_eq_false_iff_ne]
    constructor <;> (rintro rfl; exact absurd number (by decide))
  · intro fuel levels rest
    rw [← read rest, List.cons_append]
    have other {d : Char} {tail : List Char} (mark : ¬ (IsFigure d ∨ d = '-' ∨ d = 'i' ∨ d = 'n')) :
        c :: (others ++ '\n' :: rest) ≠ d :: tail :=
      fun same => mark ((List.cons.inj same).1 ▸ number)
    unfold readValue
    split
    case h_1 same => exact absurd same (other (by decide))
    case h_2 same => exact absurd same (other (by decide))
    case h_3 same => exact absurd same (other (by decide))
    case h_4 same => exact absurd same (other (by decide))
    case h_5 => rfl

theorem isTokenChar_newline (rest : List Char) :
    ∀ c ∈ ('\n' :: rest).head?, isTokenChar c = false := by
  intro c member
  cases member
  decide

theorem isValueText_numeral {n : Nat} (small : n < twoTo 128) :
    IsValueText (numeral n) (.integer n) := by
  obtain ⟨c, others, written⟩ := List.exists_cons_of_ne_nil (numeral_ne_nil n)
  have digit : c.isDigit = true := isDigit_of_mem_numeral (n := n) (by
    rw [written]
    exact List.mem_cons_self)
  exact isValueText_of_readScalar (c := c) (by rw [written]; rfl) (.inl (.inl digit))
    fun rest => readScalar_numeral small (isTokenChar_newline rest)

theorem isValueText_floatText (x : Float) : IsValueText (floatText x) (.float x) := by
  obtain ⟨c, first, number⟩ := head?_floatText x
  exact isValueText_of_readScalar first number
    fun rest => readScalar_floatText x (isTokenChar_newline rest)

/-! ## Lines -/

def IsBareName (name : String) : Prop :=
  name.toList ≠ [] ∧ ∀ c ∈ name.toList, isNameChar c = true

instance (name : String) : Decidable (IsBareName name) :=
  inferInstanceAs (Decidable (_ ∧ _))

section Names

variable {name : String} (bare : IsBareName name)

include bare

/-- A text that begins with a name begins with none of the marks of a document. -/
theorem exists_cons_of_bare (rest : List Char) :
    ∃ c others, name.toList ++ rest = c :: others ∧ isNameChar c = true := by
  obtain ⟨c, others, written⟩ := List.exists_cons_of_ne_nil bare.1
  refine ⟨c, others ++ rest, by rw [written]; rfl, bare.2 c ?_⟩
  rw [written]
  exact List.mem_cons_self

theorem append_ne_cons_of_bare {mark : Char} (other : isNameChar mark = false)
    (rest tail : List Char) : name.toList ++ rest ≠ mark :: tail := by
  obtain ⟨c, others, written, first⟩ := exists_cons_of_bare bare rest
  rw [written]
  intro same
  rw [(List.cons.inj same).1, other] at first
  exact Bool.false_ne_true first

/-- A name without quotes is a key, if no point follows it. -/
theorem readKey_bare (rest : List Char) (ends : ∀ c ∈ rest.head?, isNameChar c = false)
    (point : ∀ c ∈ (afterBlanks rest).head?, c ≠ '.') :
    readKey (name.toList ++ rest) = some (([], name), afterBlanks rest) := by
  have start : afterBlanks (name.toList ++ rest) = name.toList ++ rest := by
    obtain ⟨c, others, written, first⟩ := exists_cons_of_bare bare rest
    rw [written, afterBlanks, List.dropWhile_cons_of_neg]
    rw [isBlank, Bool.or_eq_true, beq_iff_eq, beq_iff_eq]
    rintro (rfl | rfl) <;> exact absurd first (by decide)
  have taken : readName (name.toList ++ rest) = some (name, rest) := by
    have some : ¬ name.toList.isEmpty = true := by
      rw [List.isEmpty_iff]
      exact bare.1
    unfold readName
    split
    case h_1 same => exact absurd same (append_ne_cons_of_bare bare (by decide) _ _)
    case h_2 same => exact absurd same (append_ne_cons_of_bare bare (by decide) _ _)
    case h_3 =>
      rw [takeWhile_append_of_ends bare.2 ends, dropWhile_append_of_ends bare.2 ends]
      dsimp only
      rw [if_neg some, String.ofList_toList]
  rw [readKey, levelLimit, readNames, start, taken]
  simp only [Option.bind_eq_bind, Option.bind_some]
  split
  case h_1 same => exact absurd rfl (point '.' (by rw [same]; rfl))
  case h_2 => rfl

theorem afterGaps_bare (rest : List Char) :
    afterGaps false (name.toList ++ rest) = some (name.toList ++ rest) := by
  obtain ⟨c, others, written, first⟩ := exists_cons_of_bare bare rest
  have other {d : Char} (mark : isNameChar d = false) : c ≠ d := by
    rintro rfl
    rw [first] at mark
    cases mark
  rw [written]
  unfold afterGaps
  split
  case h_1 same => cases same
  case h_2 same => exact absurd (List.cons.inj same).1 (other (by decide))
  case h_3 same =>
    cases same
    rw [if_neg (other (by decide)), if_neg Bool.false_ne_true, if_neg, if_neg (other (by decide))]
    rw [isBlank, Bool.or_eq_true, beq_iff_eq, beq_iff_eq, not_or]
    exact ⟨other (by decide), other (by decide)⟩

end Names

def SpellsLines (text : List Char) (lines : List Line) : Prop :=
  ∀ fuel, text.length < fuel → readLines fuel text = some lines

theorem spellsLines_nil : SpellsLines [] [] := by
  intro fuel enough
  cases fuel with
  | zero => cases enough
  | succ fuel => rfl

theorem afterLine_newline (rest : List Char) : afterLine ('\n' :: rest) = some rest :=
  rfl

/-- A name and a value with an equals sign between them are read as a field. -/
theorem readField_bare {name : String} (bare : IsBareName name) {text : List Char} {value : Toml}
    (spelled : IsValueText text value) (rest : List Char) :
    readField (name.toList ++ ' ' :: '=' :: ' ' :: (text ++ '\n' :: rest)) =
      some (.field [] name value, '\n' :: rest) := by
  have key := readKey_bare bare (' ' :: '=' :: ' ' :: (text ++ '\n' :: rest))
    (by simp [isNameChar]) (by simp [afterBlanks, isBlank])
  have equals : afterBlanks (' ' :: '=' :: ' ' :: (text ++ '\n' :: rest)) =
      '=' :: ' ' :: (text ++ '\n' :: rest) := rfl
  have start : afterBlanks (' ' :: (text ++ '\n' :: rest)) = text ++ '\n' :: rest := by
    obtain ⟨c, tail, rfl⟩ := List.exists_cons_of_ne_nil spelled.some
    have other := spelled.blank c rfl
    rw [afterBlanks, List.dropWhile_cons_of_pos (by rfl), List.cons_append,
      List.dropWhile_cons_of_neg (by rw [other]; exact Bool.false_ne_true)]
  obtain ⟨fuel, positive⟩ : ∃ fuel,
      2 * (name.toList ++ ' ' :: '=' :: ' ' :: (text ++ '\n' :: rest)).length = fuel + 1 := by
    refine ⟨2 * (name.toList ++ ' ' :: '=' :: ' ' :: (text ++ '\n' :: rest)).length - 1, ?_⟩
    simp only [List.length_append, List.length_cons]
    omega
  rw [readField, key, equals]
  simp only [Option.bind_eq_bind, Option.bind_some]
  rw [positive, start, spelled.read]
  rfl

/-- A line with a name and a value is read as a field. -/
theorem SpellsLines.field {name : String} (bare : IsBareName name) {text : List Char}
    {value : Toml} (spelled : IsValueText text value) {rest : List Char} {lines : List Line}
    (others : SpellsLines rest lines) :
    SpellsLines (fieldLine name text ++ rest) (.field [] name value :: lines) := by
  intro fuel enough
  have whole : fieldLine name text ++ rest =
      name.toList ++ ' ' :: '=' :: ' ' :: (text ++ '\n' :: rest) := by
    rw [fieldLine]
    simp
  rw [whole] at enough ⊢
  have read := readField_bare bare spelled rest
  have gaps := afterGaps_bare bare (' ' :: '=' :: ' ' :: (text ++ '\n' :: rest))
  have other := append_ne_cons_of_bare bare (show isNameChar '[' = false by decide)
    (' ' :: '=' :: ' ' :: (text ++ '\n' :: rest))
  cases fuel with
  | zero => cases enough
  | succ fuel =>
      have next := others fuel (by
        simp only [List.length_append, List.length_cons] at enough
        omega)
      rw [readLines, gaps]
      simp only [Option.bind_eq_bind, Option.bind_some]
      split
      case h_1 nothing => simp at nothing
      case h_2 =>
        split
        case h_1 same => exact absurd same (other _)
        case h_2 => simp only [read, Option.bind_some, afterLine_newline, next]

/-- A name in brackets is read as the header of a table. -/
theorem SpellsLines.header {name : String} (bare : IsBareName name) {rest : List Char}
    {lines : List Line} (others : SpellsLines rest lines) :
    SpellsLines (headerLine name ++ rest) (.header false [] name :: lines) := by
  intro fuel enough
  have whole : headerLine name ++ rest = '\n' :: '[' :: (name.toList ++ ']' :: '\n' :: rest) := by
    rw [headerLine]
    simp
  rw [whole] at enough ⊢
  have read : readHeader (name.toList ++ ']' :: '\n' :: rest) =
      some (.header false [] name, '\n' :: rest) := by
    have key := readKey_bare bare (']' :: '\n' :: rest)
      (by simp [isNameChar]) (by simp [afterBlanks, isBlank])
    have bracket : afterBlanks (']' :: '\n' :: rest) = ']' :: '\n' :: rest := rfl
    have other := append_ne_cons_of_bare bare (show isNameChar '[' = false by decide)
      (']' :: '\n' :: rest)
    unfold readHeader
    split
    rename_i many text chosen
    split at chosen
    case h_1 same => exact absurd same (other _)
    case h_2 =>
      cases chosen
      rw [key, bracket]
      rfl
  have gaps : afterGaps false ('\n' :: '[' :: (name.toList ++ ']' :: '\n' :: rest)) =
      some ('[' :: (name.toList ++ ']' :: '\n' :: rest)) := rfl
  cases fuel with
  | zero => cases enough
  | succ fuel =>
      have next := others fuel (by
        simp only [List.length_append, List.length_cons] at enough
        omega)
      rw [readLines, gaps]
      simp only [Option.bind_eq_bind, Option.bind_some, read, afterLine_newline, next]

end SourceRecipe.Toml
