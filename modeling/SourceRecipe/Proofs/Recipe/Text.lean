import SourceRecipe.Proofs.Recipe.Reading
import SourceRecipe.Proofs.Tree.Opening

/-!
# What a recipe text holds

A text is read exactly when its lines follow the grammar, and the recipe that comes of it has the
header and the base branch of the text and lists its instructions, none lost, doubled or moved.
-/

namespace SourceRecipe

open SourceRecipe.Text

/-! ## Depths -/

/-- Whether depths go down one level at a time, the first one to `bound` at most. -/
def Fits : Nat → List Nat → Prop
  | _, [] => True
  | bound, depth :: others => depth ≤ bound ∧ Fits (depth + 1) others

theorem fits_succ_iff {above : Nat} {depths : List Nat} :
    Fits (above + 1) depths ↔ (above :: depths).IsChain fun above below => below ≤ above + 1 := by
  induction depths generalizing above with
  | nil => exact ⟨fun _ => .singleton above, fun _ => trivial⟩
  | cons depth others ih => rw [Fits, ih, List.isChain_cons_cons]

theorem climbs_iff_fits {depths : List Nat} : Climbs depths ↔ Fits 0 depths := by
  cases depths with
  | nil =>
      constructor
      · intro _
        trivial
      · intro _
        exact ⟨fun _ member => (by cases member), .nil⟩
  | cons depth others =>
      rw [Climbs, Fits, fits_succ_iff, Nat.le_zero]
      constructor
      · rintro ⟨first, chain⟩
        exact ⟨first depth rfl, chain⟩
      · rintro ⟨first, chain⟩
        refine ⟨?_, chain⟩
        intro other member
        cases member
        exact first

/-- Lines that fit keep their depths when they are settled. -/
theorem Instructions.spread_settle_bare {β : Type} {bound : Nat} {entries : List (Entry β)}
    (fits : Fits bound (entries.map Entry.depth)) :
    spread (settle bound (entries.map Entry.bare)) = entries := by
  induction entries generalizing bound with
  | nil => rfl
  | cons entry others ih =>
      obtain ⟨low, rest⟩ := fits
      have tail := ih rest
      rw [spread] at tail
      rw [List.map_cons, Entry.bare, settle, Nat.min_eq_left low, spread, List.flatMap_cons, tail]
      rfl

/-! ## Lines after the header -/

namespace Draft

/-- The depth that the next instruction may have at most. -/
def bound (steps : List (Nat × Step Source)) : Nat :=
  match steps with
  | [] => 0
  | (depth, _) :: _ => depth + 1

theorem checkDepth_eq_ok_iff {base : Option Source} {steps : List (Nat × Step Source)}
    {depth : Nat} {rest : List Char} :
    checkDepth ⟨base, steps⟩ depth rest = .ok () ↔ depth ≤ bound steps := by
  rw [checkDepth]
  by_cases top : depth = 0
  · rw [if_pos top, top]
    exact ⟨fun _ => Nat.zero_le _, fun _ => rfl⟩
  · rw [if_neg top]
    cases steps with
    | nil =>
        constructor
        · intro impossible
          cases impossible
        · intro low
          exact absurd (Nat.le_zero.mp low) top
    | cons step others =>
        by_cases deep : depth > step.1 + 1
        · simp only [deep, if_true]
          constructor
          · intro impossible
            cases impossible
          · intro low
            exact absurd deep (Nat.not_lt.mpr low)
        · simp only [deep, if_false]
          exact ⟨fun _ => Nat.not_lt.mp deep, fun _ => trivial⟩

theorem readLine_of_silent {draft : Draft} {line : List Char}
    (silent : Line.isSilent line = true) : draft.readLine line = .ok draft :=
  if_pos silent

/-- The first line that says something names the base branch, without an indent. -/
theorem readLine_none_eq_ok_iff {line : List Char} (loud : Line.isSilent line = false)
    {steps : List (Nat × Step Source)} {next : Draft} :
    readLine ⟨none, steps⟩ line = .ok next ↔
      ∃ base, Source.Spells line base ∧ next = ⟨some base, steps⟩ := by
  rw [readLine, if_neg (by rw [loud]; exact Bool.false_ne_true)]
  simp only [bind_eq_ok_iff, Line.depth_eq_ok_iff]
  constructor
  · rintro ⟨depth, spaces, taken⟩
    by_cases indented : depth > 0
    · rw [if_pos indented] at taken
      cases taken
    · rw [if_neg indented, bind_eq_ok_iff] at taken
      obtain ⟨base, read, same⟩ := taken
      cases same
      have whole := blanks_append_afterBlanks line
      rw [spaces, Nat.eq_zero_of_not_pos indented, Nat.mul_zero, List.replicate_zero,
        List.nil_append] at whole
      rw [whole] at read
      exact ⟨base, Source.read_eq_ok_iff.mp read, rfl⟩
  · rintro ⟨base, spells, rfl⟩
    have read := Source.read_eq_ok_iff.mpr spells
    cases spells with
    | @base location specifier words rest isWord spaced spelled =>
        have ends := isWord.head? rest
        have indent := blanks_append areBlanks_nil ends
        have body := afterBlanks_append areBlanks_nil ends
        rw [List.nil_append] at indent body
        refine ⟨0, indent, ?_⟩
        rw [if_neg (Nat.lt_irrefl 0), body, read]
        rfl

/-- Every further line that says something is an instruction. -/
theorem readLine_some_eq_ok_iff {line : List Char} (loud : Line.isSilent line = false)
    {base : Source} {steps : List (Nat × Step Source)} {next : Draft} :
    readLine ⟨some base, steps⟩ line = .ok next ↔
      ∃ entry, Entry.Spells line entry ∧ entry.depth ≤ bound steps ∧
        next = ⟨some base, entry.bare :: steps⟩ := by
  rw [readLine, if_neg (by rw [loud]; exact Bool.false_ne_true)]
  simp only [bind_eq_ok_iff]
  constructor
  · rintro ⟨depth, indent, _, low, step, read, same⟩
    obtain ⟨entry, bare, spells⟩ := Entry.spells_iff.mp ⟨indent, read⟩
    have level : entry.depth = depth := congrArg Prod.fst bare
    cases same
    refine ⟨entry, spells, ?_, ?_⟩
    · rw [level]
      exact checkDepth_eq_ok_iff.mp low
    · rw [bare]
  · rintro ⟨entry, spells, low, rfl⟩
    obtain ⟨indent, read⟩ := Entry.spells_iff.mpr ⟨entry, rfl, spells⟩
    exact ⟨_, indent, (), checkDepth_eq_ok_iff.mpr low, _, read, rfl⟩

/-- The lines after the base branch are read exactly when those that say something are
instructions with depths that fit. -/
theorem readLines_some_eq_ok_iff {base : Source} {steps : List (Nat × Step Source)}
    {number : Nat} {lines : List (List Char)} {final : Draft} :
    readLines ⟨some base, steps⟩ number lines = .ok final ↔
      ∃ entries, List.Forall₂ Entry.Spells (lines.filter fun line => !Line.isSilent line) entries ∧
        Fits (bound steps) (entries.map Entry.depth) ∧
        final = ⟨some base, (entries.map Entry.bare).reverse ++ steps⟩ := by
  induction lines generalizing steps number with
  | nil =>
      rw [readLines]
      constructor
      · intro same
        cases same
        exact ⟨[], .nil, trivial, rfl⟩
      · rintro ⟨entries, spelled, _, rfl⟩
        cases spelled
        rfl
  | cons line others ih =>
      rw [readLines]
      cases loud : Line.isSilent line with
      | true =>
          rw [readLine_of_silent loud]
          simp only [ih, List.filter_cons, loud, Bool.not_true, Bool.false_eq_true, if_false]
      | false =>
          simp only [List.filter_cons, loud, Bool.not_false, if_true]
          constructor
          · intro read
            cases first : readLine ⟨some base, steps⟩ line with
            | error stop =>
                rw [first] at read
                cases read
            | ok next =>
                rw [first] at read
                obtain ⟨entry, spells, low, rfl⟩ := (readLine_some_eq_ok_iff loud).mp first
                obtain ⟨entries, spelled, fits, rfl⟩ := ih.mp read
                refine ⟨entry :: entries, .cons spells spelled, ⟨low, fits⟩, ?_⟩
                rw [List.map_cons, List.reverse_cons, List.append_assoc, List.singleton_append]
          · rintro ⟨entries, spelled, fits, rfl⟩
            cases spelled with
            | @cons _ entry _ entries spells spelled =>
                obtain ⟨low, fits⟩ := fits
                rw [(readLine_some_eq_ok_iff loud).mpr ⟨entry, spells, low, rfl⟩]
                refine ih.mpr ⟨entries, spelled, fits, ?_⟩
                rw [List.map_cons, List.reverse_cons, List.append_assoc, List.singleton_append]

/-- What is read of the lines after the header: nothing where none of them says anything, and
otherwise a base branch and instructions. -/
theorem readLines_empty_eq_ok_iff {number : Nat} {lines : List (List Char)} {final : Draft} :
    readLines empty number lines = .ok final ↔
      ((lines.filter fun line => !Line.isSilent line) = [] ∧ final = empty) ∨
        ∃ baseLine others base entries,
          (lines.filter fun line => !Line.isSilent line) = baseLine :: others ∧
          Source.Spells baseLine base ∧ List.Forall₂ Entry.Spells others entries ∧
          Fits 0 (entries.map Entry.depth) ∧
          final = ⟨some base, (entries.map Entry.bare).reverse⟩ := by
  induction lines generalizing number with
  | nil =>
      rw [readLines]
      constructor
      · intro same
        cases same
        exact .inl ⟨rfl, rfl⟩
      · rintro (⟨_, rfl⟩ | ⟨_, _, _, _, impossible, _⟩)
        · rfl
        · cases impossible
  | cons line others ih =>
      rw [readLines]
      cases loud : Line.isSilent line with
      | true =>
          rw [readLine_of_silent loud]
          simp only [ih, List.filter_cons, loud, Bool.not_true, Bool.false_eq_true, if_false]
      | false =>
          simp only [List.filter_cons, loud, Bool.not_false, if_true]
          constructor
          · intro read
            cases first : empty.readLine line with
            | error stop =>
                rw [first] at read
                cases read
            | ok next =>
                rw [first] at read
                obtain ⟨base, spells, rfl⟩ := (readLine_none_eq_ok_iff loud).mp first
                obtain ⟨entries, spelled, fits, rfl⟩ := readLines_some_eq_ok_iff.mp read
                rw [List.append_nil]
                exact .inr ⟨line, _, base, entries, rfl, spells, spelled, fits, rfl⟩
          · rintro (⟨impossible, _⟩ | ⟨_, _, base, entries, same, spells, spelled, fits, rfl⟩)
            · cases impossible
            · cases same
              have first : readLine ⟨none, []⟩ line = .ok ⟨some base, []⟩ :=
                (readLine_none_eq_ok_iff loud).mpr ⟨base, spells, rfl⟩
              rw [empty, first]
              refine readLines_some_eq_ok_iff.mpr ⟨entries, spelled, fits, ?_⟩
              rw [List.append_nil]

end Draft

/-! ## Whole texts -/

namespace Recipe

/-- Lines that follow the grammar are read, with the instructions in their order. -/
theorem readLines_of_spells {lines : List (List Char)} {header : Header} {base : Source}
    {entries : List (Entry Source)} (spells : Recipe.Spells lines header base entries)
    (filename : String) :
    ∃ block, readLines filename lines = .ok ⟨header, ⟨base, block⟩⟩ ∧
      block.listing 0 = entries := by
  cases spells with
  | @recipe first baseLine lines others _ _ _ headerLine significant baseSpelled entriesSpelled
      climbs =>
      have fits := climbs_iff_fits.mp climbs
      have draft : Draft.empty.readLines 2 lines = _ := Draft.readLines_empty_eq_ok_iff.mpr
        (.inr ⟨baseLine, others, base, entries, significant, baseSpelled, entriesSpelled, fits,
          rfl⟩)
      refine ⟨.ofLines (entries.map Entry.bare), ?_, ?_⟩
      · rw [readLines]
        simp only [List.headD_cons, List.tail_cons, Header.read_eq_ok_iff.mpr headerLine, draft,
          Draft.tree?, Option.map_some, List.reverse_reverse, Tree.attach_eq,
          Instructions.done_append]
      · rw [Instructions.listing_ofLines, Instructions.spread_settle_bare fits]

/-- Lines that are read follow the grammar. -/
theorem spells_of_readLines {filename : String} {first : List Char} {lines : List (List Char)}
    {recipe : Recipe} (read : readLines filename (first :: lines) = .ok recipe) :
    Recipe.Spells (first :: lines) recipe.header recipe.tree.base
      (recipe.tree.instructions.listing 0) := by
  rw [readLines] at read
  simp only [List.headD_cons, List.tail_cons] at read
  cases headerLine : Header.read first with
  | error stop =>
      rw [headerLine] at read
      cases read
  | ok header =>
      simp only [headerLine] at read
      cases draft : Draft.empty.readLines 2 lines with
      | error stop =>
          rw [draft] at read
          cases read
      | ok final =>
          simp only [draft] at read
          rcases Draft.readLines_empty_eq_ok_iff.mp draft with
            ⟨_, rfl⟩ | ⟨baseLine, others, base, entries, significant, spells, spelled, fits, rfl⟩
          · cases read
          · simp only [Draft.tree?, Option.map_some, List.reverse_reverse] at read
            cases read
            have listed : (Instructions.ofLines (entries.map Entry.bare)).listing 0 = entries := by
              rw [Instructions.listing_ofLines, Instructions.spread_settle_bare fits]
            simp only [Tree.attach_eq, Instructions.done_append, listed]
            exact .recipe (Header.read_eq_ok_iff.mp headerLine) significant spells spelled
              (climbs_iff_fits.mpr fits)

/-- A text is read exactly when its lines follow the grammar, and the recipe that comes of it has
the header and the base branch that the lines spell and lists the instructions that they spell,
in their order and with their depths. -/
theorem read_eq_ok_iff_spells (filename : String) (text : List Char) :
    ((∃ recipe, read filename text = .ok recipe) ↔
        ∃ header base entries, Recipe.Spells (Text.lines text) header base entries) ∧
      ∀ header base entries,
        (∃ block, read filename text = .ok ⟨header, ⟨base, block⟩⟩ ∧ block.listing 0 = entries) ↔
          Recipe.Spells (Text.lines text) header base entries := by
  obtain ⟨first, others, whole⟩ := exists_lines_eq_cons text
  simp only [read, whole]
  constructor
  · constructor
    · rintro ⟨recipe, read⟩
      exact ⟨_, _, _, spells_of_readLines read⟩
    · rintro ⟨header, base, entries, spells⟩
      obtain ⟨block, read, _⟩ := readLines_of_spells spells filename
      exact ⟨_, read⟩
  · intro header base entries
    constructor
    · rintro ⟨block, read, rfl⟩
      exact spells_of_readLines read
    · intro spells
      exact readLines_of_spells spells filename

end Recipe

end SourceRecipe
