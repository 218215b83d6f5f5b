import SourceRecipe.Proofs.Text.Cuts
import SourceRecipe.Proofs.Text.Padding

/-!
# Tokens

A token is a word that may be written anywhere on a line of its own text: no blank, no line feed
and no carriage return is in it.  Lines that are made of tokens and spaces are lines again.
-/

namespace SourceRecipe.Text

/-- Whether a text stays on one line, whatever follows it. -/
def IsFlat (text : List Char) : Prop :=
  '\n' ∉ text ∧ '\r' ∉ text

/-- A word without line feeds and carriage returns. -/
structure IsToken (text : List Char) : Prop where
  isWord : IsWord text
  isFlat : IsFlat text

instance (text : List Char) : Decidable (IsFlat text) :=
  inferInstanceAs (Decidable ('\n' ∉ text ∧ '\r' ∉ text))

instance (text : List Char) : Decidable (IsToken text) :=
  decidable_of_iff (IsWord text ∧ IsFlat text)
    ⟨fun ⟨isWord, isFlat⟩ => ⟨isWord, isFlat⟩, fun ⟨isWord, isFlat⟩ => ⟨isWord, isFlat⟩⟩

@[simp]
theorem isFlat_nil : IsFlat [] := by
  decide

@[simp]
theorem isFlat_cons {c : Char} {rest : List Char} :
    IsFlat (c :: rest) ↔ (c ≠ '\n' ∧ c ≠ '\r') ∧ IsFlat rest := by
  simp only [IsFlat, List.mem_cons, not_or, ne_eq, eq_comm (b := c)]
  exact and_and_and_comm

@[simp]
theorem isFlat_append {front rest : List Char} :
    IsFlat (front ++ rest) ↔ IsFlat front ∧ IsFlat rest := by
  simp only [IsFlat, List.mem_append, not_or]
  exact and_and_and_comm

theorem isFlat_replicate_space (n : Nat) : IsFlat (List.replicate n ' ') := by
  constructor
  · intro member
    exact absurd (List.eq_of_mem_replicate member) (by decide)
  · intro member
    exact absurd (List.eq_of_mem_replicate member) (by decide)

theorem IsFlat.isLine {line : List Char} (flat : IsFlat line) : IsLine line :=
  ⟨flat.1, fun last => flat.2 (List.mem_of_getLast? last)⟩

/-- A token with more that neither blanks nor line ends are in is a token. -/
theorem IsToken.append {front rest : List Char} (token : IsToken front)
    (inside : ∀ c ∈ rest, isBlank c = false) (flat : IsFlat rest) : IsToken (front ++ rest) :=
  ⟨token.isWord.append inside, isFlat_append.mpr ⟨token.isFlat, flat⟩⟩

/-! ## Figures -/

/-- A digit or one of the marks that stand between the digits of numbers, dates and times. -/
def isFigure (c : Char) : Bool :=
  c.isDigit || ['-', '+', '.', ':', 'T', 'Z'].contains c

theorem isFigure_of_isDigit {c : Char} (digit : c.isDigit = true) : isFigure c = true := by
  rw [isFigure, digit]
  rfl

/-- No figure is a blank or ends a line. -/
theorem not_blank_of_isFigure {c : Char} (figure : isFigure c = true) :
    isBlank c = false ∧ c ≠ '\n' ∧ c ≠ '\r' := by
  refine ⟨?_, ?_, ?_⟩
  · rw [Bool.eq_false_iff]
    intro blank
    rcases Bool.or_eq_true_iff.mp blank with space | tab
    · rw [beq_iff_eq.mp space] at figure
      exact absurd figure (by decide)
    · rw [beq_iff_eq.mp tab] at figure
      exact absurd figure (by decide)
  · rintro rfl
    exact absurd figure (by decide)
  · rintro rfl
    exact absurd figure (by decide)

theorem isFlat_of_figures {text : List Char} (figures : ∀ c ∈ text, isFigure c = true) :
    IsFlat text :=
  ⟨fun member => (not_blank_of_isFigure (figures _ member)).2.1 rfl,
    fun member => (not_blank_of_isFigure (figures _ member)).2.2 rfl⟩

/-- Figures make a token. -/
theorem isToken_of_figures {text : List Char} (some : text ≠ [])
    (figures : ∀ c ∈ text, isFigure c = true) : IsToken text :=
  ⟨⟨some, fun c member => (not_blank_of_isFigure (figures c member)).1⟩,
    isFlat_of_figures figures⟩

theorem isFigure_of_mem_padded {width n : Nat} {c : Char} (member : c ∈ padded width n) :
    isFigure c = true :=
  isFigure_of_isDigit (isDigit_of_mem_padded member)

theorem isToken_numeral (n : Nat) : IsToken (numeral n) := by
  refine isToken_of_figures ?_ fun c member => isFigure_of_isDigit (isDigit_of_mem_numeral member)
  rw [numeral_eq_toDigits]
  exact Nat.toDigits_ne_nil

/-! ## Replacing -/

theorem mem_of_mem_replaceFrom {phrase substitute text : List Char} {skip : Nat} {c : Char}
    (member : c ∈ replaceFrom phrase substitute skip text) : c ∈ substitute ∨ c ∈ text := by
  induction text generalizing skip with
  | nil =>
      cases skip with
      | zero => cases member
      | succ skip => cases member
  | cons d rest ih =>
      cases skip with
      | succ skip => exact (ih member).imp_right (List.mem_cons_of_mem d)
      | zero =>
          rw [replaceFrom] at member
          split at member
          · rcases List.mem_append.mp member with put | left
            · exact .inl put
            · exact (ih left).imp_right (List.mem_cons_of_mem d)
          · rcases List.mem_cons.mp member with rfl | left
            · exact .inr List.mem_cons_self
            · exact (ih left).imp_right (List.mem_cons_of_mem d)

theorem replace_ne_nil {phrase substitute text : List Char} (put : substitute ≠ [])
    (some : text ≠ []) : replace phrase substitute text ≠ [] := by
  cases text with
  | nil => exact absurd rfl some
  | cons c rest =>
      rw [replace, replaceFrom]
      split
      · exact List.append_ne_nil_of_left_ne_nil put _
      · exact List.cons_ne_nil _ _

/-- A token with tokens put in for phrases is a token. -/
theorem IsToken.replace {substitute text : List Char} (put : IsToken substitute)
    (token : IsToken text) (phrase : List Char) : IsToken (replace phrase substitute text) := by
  refine ⟨⟨replace_ne_nil put.isWord.1 token.isWord.1, fun c member => ?_⟩, fun member => ?_,
    fun member => ?_⟩
  · exact (mem_of_mem_replaceFrom member).elim (put.isWord.2 c) (token.isWord.2 c)
  · exact (mem_of_mem_replaceFrom member).elim put.isFlat.1 token.isFlat.1
  · exact (mem_of_mem_replaceFrom member).elim put.isFlat.2 token.isFlat.2

/-- A phrase that begins with a character the text does not have is not in it. -/
theorem not_isPrefixOf_of_not_mem {phrase text : List Char} {c : Char}
    (leads : phrase.head? = some c) (absent : c ∉ text) : ¬ phrase.isPrefixOf text = true := by
  rw [List.isPrefixOf_iff_prefix]
  rintro ⟨rest, rfl⟩
  exact absent (List.mem_append_left rest (List.mem_of_head? leads))

theorem occursIn_of_not_mem {phrase text : List Char} {c : Char} (leads : phrase.head? = some c)
    (absent : c ∉ text) : occursIn phrase text = false := by
  induction text with
  | nil =>
      cases phrase with
      | nil => cases leads
      | cons d others => rfl
  | cons d rest ih =>
      rw [occursIn, ih fun member => absent (List.mem_cons_of_mem d member), Bool.or_false]
      exact Bool.eq_false_iff.mpr (not_isPrefixOf_of_not_mem leads absent)

theorem replace_of_not_mem {phrase text : List Char} {c : Char} (leads : phrase.head? = some c)
    (absent : c ∉ text) (substitute : List Char) : replace phrase substitute text = text := by
  rw [replace]
  induction text with
  | nil => rfl
  | cons d rest ih =>
      rw [replaceFrom, if_neg (not_isPrefixOf_of_not_mem leads absent),
        ih fun member => absent (List.mem_cons_of_mem d member)]

end SourceRecipe.Text
