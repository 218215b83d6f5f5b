import SourceRecipe.Proofs.Recipe.RoundTrip

/-!
# Names that are read

The names in a recipe are words of the lines it was read from.  Where the text has no carriage
returns they are tokens, so the recipe may be written again.
-/

namespace SourceRecipe

open SourceRecipe.Text

/-! ## Words of a line -/

namespace Text

/-- The lines of a text without carriage returns have neither those nor line feeds. -/
theorem isFlat_of_mem_lines {text line : List Char} (noReturn : '\r' ∉ text)
    (member : line ∈ lines text) : IsFlat line :=
  ⟨fun feed => (mem_lines member _ feed).2 rfl, fun back => noReturn (mem_lines member _ back).1⟩

/-- The words of a flat line are tokens. -/
theorem Spaced.isToken {words : List (List Char)} {line : List Char} (spaced : Spaced words line)
    (flat : IsFlat line) : ∀ word ∈ words, IsToken word := by
  induction spaced with
  | done blank => exact List.forall_mem_nil _
  | @word gap word rest words blank some isWord spaced ih =>
      obtain ⟨front, rest⟩ := isFlat_append.mp flat
      exact List.forall_mem_cons.mpr ⟨⟨isWord, (isFlat_append.mp front).2⟩, ih rest⟩

end Text

/-! ## Names of a line -/

theorem Header.Spells.isToken {line : List Char} {header : Header}
    (spells : Header.Spells line header) (flat : IsFlat line) :
    ∀ template ∈ header.version, IsToken template.toList := by
  cases spells with
  | plain blank known isFormat spaced =>
      intro template impossible
      cases impossible
  | versioned blank known isFormat spaced =>
      intro template same
      cases same
      have rest := (isFlat_append.mp (isFlat_append.mp (isFlat_cons.mp flat).2).2).2
      exact spaced.isToken rest _ (by simp)

theorem Source.Spells.isToken {line : List Char} {source : Source}
    (spells : Source.Spells line source) (flat : IsFlat line) :
    IsToken source.location.toList := by
  cases spells with
  | base isWord spaced spelled => exact ⟨isWord, (isFlat_append.mp flat).1⟩

/-- A line that says something does not name a branch that looks like a comment. -/
theorem Source.Spells.noComment {line : List Char} {source : Source}
    (spells : Source.Spells line source) (loud : Line.isSilent line = false) :
    source.location.toList.head? ≠ some '#' := by
  cases spells with
  | @base location specifier words rest isWord spaced spelled =>
      intro sign
      have body := afterBlanks_append areBlanks_nil (isWord.head? rest)
      rw [List.nil_append] at body
      rw [Line.isSilent, body] at loud
      cases whole : location.toList with
      | nil => exact isWord.1 whole
      | cons c others =>
          rw [whole] at sign loud
          cases sign
          cases loud

theorem Entry.Spells.hasTokens {line : List Char} {entry : Entry Source}
    (spells : Entry.Spells line entry) (flat : IsFlat line) : entry.HasTokens := by
  cases spells with
  | merge spaced spelled =>
      have tokens := spaced.isToken (isFlat_append.mp (isFlat_append.mp flat).2).2
      exact ⟨tokens _ (by simp), fun _ impossible => (by cases impossible), tokens _ (by simp)⟩
  | nest spaced spelled =>
      have tokens := spaced.isToken (isFlat_append.mp (isFlat_append.mp flat).2).2
      exact ⟨tokens _ (by simp), fun _ same => (by cases same; exact tokens _ (by simp)),
        tokens _ (by simp)⟩

/-- Every instruction that lines spell has its line. -/
theorem Entry.exists_of_spells {lines : List (List Char)} {entries : List (Entry Source)}
    (spelled : List.Forall₂ Entry.Spells lines entries) :
    ∀ entry ∈ entries, ∃ line ∈ lines, Entry.Spells line entry := by
  induction spelled with
  | nil => exact List.forall_mem_nil _
  | @cons line entry lines entries spells _ ih =>
      refine List.forall_mem_cons.mpr ⟨⟨line, List.mem_cons_self, spells⟩, fun other listed => ?_⟩
      obtain ⟨later, member, spells⟩ := ih other listed
      exact ⟨later, List.mem_cons_of_mem line member, spells⟩

/-! ## Recipes -/

namespace Recipe

theorem Spells.hasTokens {lines : List (List Char)} {recipe : Recipe}
    (spells : Recipe.Spells lines recipe.header recipe.tree.base
      (recipe.tree.instructions.listing 0))
    (flat : ∀ line ∈ lines, IsFlat line) : recipe.HasTokens := by
  -- The lines spell a list of entries; that it is the listing of a tree does not matter here.
  generalize listed : recipe.tree.instructions.listing 0 = entries at spells
  cases spells with
  | @recipe first baseLine lines others _ _ _ headerLine significant baseSpelled entriesSpelled
      climbs =>
      obtain ⟨firstFlat, restFlat⟩ := List.forall_mem_cons.mp flat
      have chosen {line : List Char} (member : line ∈ baseLine :: others) :
          IsFlat line ∧ Line.isSilent line = false := by
        rw [← significant, List.mem_filter] at member
        exact ⟨restFlat line member.1, Bool.not_eq_eq_eq_not.mp member.2⟩
      obtain ⟨baseFlat, loud⟩ := chosen List.mem_cons_self
      refine ⟨headerLine.isToken firstFlat, baseSpelled.isToken baseFlat,
        baseSpelled.noComment loud, ?_⟩
      rw [listed]
      intro entry member
      obtain ⟨line, kept, spells⟩ := Entry.exists_of_spells entriesSpelled entry member
      exact spells.hasTokens (chosen (List.mem_cons_of_mem _ kept)).1

/-- The names in a recipe that was read of a text without carriage returns are tokens. -/
theorem hasTokens_of_read {filename : String} {text : List Char} {recipe : Recipe}
    (noReturn : '\r' ∉ text) (read : Recipe.read filename text = .ok recipe) :
    recipe.HasTokens := by
  obtain ⟨first, others, whole⟩ := exists_lines_eq_cons text
  rw [Recipe.read, whole] at read
  apply (spells_of_readLines read).hasTokens
  rw [← whole]
  exact fun line member => isFlat_of_mem_lines noReturn member

end Recipe

end SourceRecipe
