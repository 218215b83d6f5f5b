import SourceRecipe.Text.Blank

/-!
# Lines as words

What the cuts of a line give is told by the line alone: a word is a run of characters without
blanks, and a line is spaced out when it consists of words with blanks before each of them.
`Spaced words line` is that reading of a line as a relation, so that grammars can be stated without
the functions that cut lines.
-/

namespace SourceRecipe.Text

/-! ## Cutting at the end of a class of characters -/

/-- A run of characters of a class is cut off whole when none of them follows it. -/
theorem takeWhile_append_of_ends {p : Char → Bool} {front rest : List Char}
    (inside : ∀ c ∈ front, p c = true) (ends : ∀ c ∈ rest.head?, p c = false) :
    (front ++ rest).takeWhile p = front := by
  rw [List.takeWhile_append_of_pos inside]
  cases rest with
  | nil => exact List.append_nil front
  | cons c others =>
      have outside : p c = false := ends c rfl
      rw [List.takeWhile_cons_of_neg (by rw [outside]; exact Bool.false_ne_true),
        List.append_nil]

theorem dropWhile_append_of_ends {p : Char → Bool} {front rest : List Char}
    (inside : ∀ c ∈ front, p c = true) (ends : ∀ c ∈ rest.head?, p c = false) :
    (front ++ rest).dropWhile p = rest := by
  rw [List.dropWhile_append_of_pos inside]
  cases rest with
  | nil => rfl
  | cons c others =>
      have outside : p c = false := ends c rfl
      exact List.dropWhile_cons_of_neg (by rw [outside]; exact Bool.false_ne_true)

theorem of_mem_takeWhile {p : Char → Bool} {c : Char} {text : List Char}
    (member : c ∈ text.takeWhile p) : p c = true :=
  List.all_eq_true.mp List.all_takeWhile c member

theorem of_mem_head?_dropWhile {p : Char → Bool} {c : Char} {text : List Char}
    (member : c ∈ (text.dropWhile p).head?) : p c = false := by
  have ends := List.head?_dropWhile_not p text
  rw [Option.mem_def.mp member] at ends
  exact ends

/-! ## Blanks, words and what bounds them -/

def AreBlanks (text : List Char) : Prop :=
  ∀ c ∈ text, isBlank c = true

/-- A run of characters other than blanks, at least one. -/
def IsWord (text : List Char) : Prop :=
  text ≠ [] ∧ ∀ c ∈ text, isBlank c = false

def IsBounded (rest : List Char) : Prop :=
  ∀ c ∈ rest.head?, isBlank c = true

instance (text : List Char) : Decidable (AreBlanks text) :=
  List.decidableBAll (fun c => isBlank c = true) text

instance (text : List Char) : Decidable (IsWord text) :=
  have := List.decidableBAll (fun c => isBlank c = false) text
  inferInstanceAs (Decidable (text ≠ [] ∧ _))

theorem areBlanks_nil : AreBlanks [] := by
  intro c member
  cases member

theorem areBlanks_replicate (count : Nat) : AreBlanks (List.replicate count ' ') := by
  intro c member
  rw [List.eq_of_mem_replicate member]
  rfl

theorem areBlanks_blanks (line : List Char) : AreBlanks (blanks line) :=
  fun _ member => of_mem_takeWhile member

theorem isBlank_of_mem_word {line : List Char} {c : Char} (member : c ∈ word line) :
    isBlank c = false := by
  have inside := of_mem_takeWhile member
  exact Bool.not_eq_true _ ▸ Bool.not_eq_eq_eq_not.mp inside

theorem isBounded_afterWord (line : List Char) : IsBounded (afterWord line) := by
  intro c member
  exact Bool.not_eq_eq_eq_not.mp (of_mem_head?_dropWhile member)

theorem isBlank_of_mem_head?_afterBlanks {line : List Char} {c : Char}
    (member : c ∈ (afterBlanks line).head?) : isBlank c = false :=
  of_mem_head?_dropWhile member

theorem isWord_word {line : List Char} (some : word line ≠ []) : IsWord (word line) :=
  ⟨some, fun _ member => isBlank_of_mem_word member⟩

theorem word_append {front rest : List Char} (inside : ∀ c ∈ front, isBlank c = false)
    (bounded : IsBounded rest) : word (front ++ rest) = front := by
  refine takeWhile_append_of_ends (fun c member => ?_) (fun c member => ?_)
  · rw [inside c member]
    rfl
  · rw [bounded c member]
    rfl

theorem afterWord_append {front rest : List Char} (inside : ∀ c ∈ front, isBlank c = false)
    (bounded : IsBounded rest) : afterWord (front ++ rest) = rest := by
  refine dropWhile_append_of_ends (fun c member => ?_) (fun c member => ?_)
  · rw [inside c member]
    rfl
  · rw [bounded c member]
    rfl

theorem afterBlanks_append {front rest : List Char} (inside : AreBlanks front)
    (ends : ∀ c ∈ rest.head?, isBlank c = false) : afterBlanks (front ++ rest) = rest :=
  dropWhile_append_of_ends inside ends

theorem blanks_append {front rest : List Char} (inside : AreBlanks front)
    (ends : ∀ c ∈ rest.head?, isBlank c = false) : blanks (front ++ rest) = front :=
  takeWhile_append_of_ends inside ends

/-- Only blanks leave nothing after them. -/
theorem afterBlanks_eq_nil_iff {line : List Char} : afterBlanks line = [] ↔ AreBlanks line := by
  constructor
  · intro nothing
    have whole := blanks_append_afterBlanks line
    rw [nothing, List.append_nil] at whole
    rw [← whole]
    exact areBlanks_blanks line
  · intro all
    have dropped : afterBlanks (line ++ []) = [] :=
      afterBlanks_append all (fun c member => by cases member)
    rw [List.append_nil] at dropped
    exact dropped

/-- Where a line goes on after its blanks, a word begins. -/
theorem word_afterBlanks_ne_nil {line : List Char} (more : afterBlanks line ≠ []) :
    word (afterBlanks line) ≠ [] := by
  cases rest : afterBlanks line with
  | nil => exact absurd rest more
  | cons c others =>
      have inside : isBlank c = false :=
        @isBlank_of_mem_head?_afterBlanks line c (by rw [rest]; exact rfl)
      rw [word, List.takeWhile_cons_of_pos (by rw [inside]; rfl)]
      exact List.cons_ne_nil _ _

theorem IsWord.head? {text : List Char} (isWord : IsWord text) (rest : List Char) :
    ∀ c ∈ (text ++ rest).head?, isBlank c = false := by
  obtain ⟨nonempty, inside⟩ := isWord
  cases text with
  | nil => exact absurd rfl nonempty
  | cons d others =>
      intro c member
      cases member
      exact inside d List.mem_cons_self

/-- A word with more that no blanks are in is a word. -/
theorem IsWord.append {front rest : List Char} (isWord : IsWord front)
    (inside : ∀ c ∈ rest, isBlank c = false) : IsWord (front ++ rest) :=
  ⟨List.append_ne_nil_of_left_ne_nil isWord.1 rest,
    List.forall_mem_append.mpr ⟨isWord.2, inside⟩⟩

/-! ## Spaced words -/

/-- A text made of words with at least one blank before each of them, and any blanks at its
end. -/
inductive Spaced : List (List Char) → List Char → Prop where
  | done {trail : List Char} (blank : AreBlanks trail) : Spaced [] trail
  | word {gap word rest : List Char} {words : List (List Char)} (blank : AreBlanks gap)
      (some : gap ≠ []) (isWord : IsWord word) (spaced : Spaced words rest) :
      Spaced (word :: words) (gap ++ word ++ rest)

namespace Spaced

theorem isBounded {words : List (List Char)} {line : List Char} (spaced : Spaced words line) :
    IsBounded line := by
  intro c member
  cases spaced with
  | done blank => exact blank c (List.mem_of_mem_head? member)
  | @word gap word rest words blank some isWord spaced =>
      cases gap with
      | nil => exact absurd rfl some
      | cons first others =>
          cases member
          exact blank c List.mem_cons_self

theorem nil_iff {line : List Char} : Spaced [] line ↔ AreBlanks line := by
  constructor
  · rintro ⟨blank⟩
    exact blank
  · exact done

/-- The first of some spaced words and what is left of the line after it. -/
theorem cons_iff {first : List Char} {words : List (List Char)} {line : List Char} :
    Spaced (first :: words) line ↔
      IsBounded line ∧ afterBlanks line ≠ [] ∧ Text.word (afterBlanks line) = first ∧
        Spaced words (afterWord (afterBlanks line)) := by
  constructor
  · intro spaced
    have bounded := spaced.isBounded
    cases spaced with
    | @word gap _ rest _ blank some isWord spaced =>
        have left : afterBlanks (gap ++ first ++ rest) = first ++ rest := by
          rw [List.append_assoc]
          exact afterBlanks_append blank (isWord.head? rest)
        refine ⟨bounded, ?_, ?_, ?_⟩
        · rw [left]
          exact List.append_ne_nil_of_left_ne_nil isWord.1 rest
        · rw [left, word_append isWord.2 spaced.isBounded]
        · rw [left, afterWord_append isWord.2 spaced.isBounded]
          exact spaced
  · rintro ⟨bounded, more, rfl, spaced⟩
    have whole : blanks line ++ Text.word (afterBlanks line) ++ afterWord (afterBlanks line) =
        line := by
      rw [List.append_assoc, word_append_afterWord, blanks_append_afterBlanks]
    have gap : blanks line ≠ [] := by
      cases line with
      | nil => exact absurd rfl more
      | cons c others =>
          have blank : isBlank c = true := bounded c rfl
          rw [blanks, List.takeWhile_cons_of_pos blank]
          exact List.cons_ne_nil _ _
    have isWord : IsWord (Text.word (afterBlanks line)) :=
      isWord_word (word_afterBlanks_ne_nil more)
    have spelled := Spaced.word (areBlanks_blanks line) gap isWord spaced
    rw [whole] at spelled
    exact spelled

end Spaced

end SourceRecipe.Text
