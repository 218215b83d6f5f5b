import SourceRecipe.Proofs.Recipe.Tokens
import SourceRecipe.Proofs.Time.Reading

/-!
# Recipes that are written again

A recipe that was read is written with the words it was read from, so its lines hold no more
carriage returns than the lines of the text it came from.  Writing puts the last word of a line at
the end of that line, where carriage returns do not count: a word that ended in one, with a blank
behind it in the text, is not found again.  There is no other way to lose a word.
-/

namespace SourceRecipe

open SourceRecipe.Text SourceRecipe.Time

/-! ## Characters that end lines -/

namespace Text

/-- Whether a character counts at the end of a line. -/
def EndsLine (c : Char) : Prop :=
  c = '\n' ∨ c = '\r'

variable {c : Char}

instance (c : Char) : Decidable (EndsLine c) :=
  inferInstanceAs (Decidable (c = '\n' ∨ c = '\r'))

theorem IsFlat.count_eq_zero {text : List Char} (flat : IsFlat text) (ends : EndsLine c) :
    text.count c = 0 := by
  rw [List.count_eq_zero]
  rcases ends with rfl | rfl
  · exact flat.1
  · exact flat.2

theorem EndsLine.count_space (ends : EndsLine c) (text : List Char) :
    (' ' :: text).count c = text.count c := by
  have differs : ' ' ≠ c := by
    rintro rfl
    exact absurd ends (by decide)
  exact List.count_cons_of_ne differs

theorem EndsLine.count_flatMap_space (ends : EndsLine c) (words : List (List Char)) :
    (words.flatMap (' ' :: ·)).count c = words.flatten.count c := by
  induction words with
  | nil => rfl
  | cons word words ih =>
      rw [List.flatMap_cons, List.flatten_cons, List.count_append, List.count_append,
        ends.count_space, ih]

theorem Spaced.isWord {words : List (List Char)} {line : List Char} (spaced : Spaced words line) :
    ∀ word ∈ words, IsWord word := by
  induction spaced with
  | done blank => exact List.forall_mem_nil _
  | word blank some isWord spaced ih => exact List.forall_mem_cons.mpr ⟨isWord, ih⟩

/-- A line holds its words. -/
theorem Spaced.flatten_sublist {words : List (List Char)} {line : List Char}
    (spaced : Spaced words line) : words.flatten.Sublist line := by
  induction spaced with
  | done blank => exact List.nil_sublist _
  | word blank some isWord spaced ih => exact (List.sublist_append_right _ _).append ih

end Text

/-! ## Specifiers -/

/-- Whether a specifier asks for no date, or for one in a year of four digits. -/
def Specifier.HasPlainYear : Specifier → Prop
  | date instant => 0 ≤ instant.date.year ∧ instant.date.year ≤ 9999
  | _ => True

/-- What the token of a specifier stands for: what follows its mark, if it has one. -/
inductive Specifier.Reads : List Char → Specifier → Prop where
  | revision {mark : List Char} {id : String} (flat : IsFlat mark) (some : id.toList ≠ []) :
      Reads (mark ++ id.toList) (.revision id)
  | tag {mark : List Char} {name : String} (flat : IsFlat mark) (some : name.toList ≠ []) :
      Reads (mark ++ name.toList) (.tag name)
  | date {mark text : List Char} {instant : Instant} (read : Instant.read text = some instant) :
      Reads (mark ++ text) (.date instant)

namespace Specifier

theorem reads_of_read {token : List Char} {specifier : Specifier} (isWord : IsWord token)
    (found : read token = .ok specifier) : Reads token specifier := by
  rw [read] at found
  split at found
  · rename_i id marked
    obtain rfl := eq_of_dropLead? marked
    split at found
    · cases found
    · rename_i some
      cases found
      have reads := @Reads.revision revisionMark (String.ofList id) (by decide)
      rw [String.toList_ofList] at reads
      exact reads (mt List.isEmpty_iff.mpr some)
  · rename_i name _ marked
    obtain rfl := eq_of_dropLead? marked
    split at found
    · cases found
    · rename_i some
      cases found
      have reads := @Reads.tag tagMark (String.ofList name) (by decide)
      rw [String.toList_ofList] at reads
      exact reads (mt List.isEmpty_iff.mpr some)
  · rename_i text _ _ marked
    obtain rfl := eq_of_dropLead? marked
    split at found
    · rename_i instant named
      cases found
      exact .date named
    · cases found
  · cases found
    have reads := @Reads.revision [] (String.ofList token) (by decide)
    rw [String.toList_ofList] at reads
    exact reads isWord.1

theorem Reads.isLegible {token : List Char} {specifier : Specifier} (reads : Reads token specifier)
    (isWord : IsWord token) (plain : specifier.HasPlainYear) : specifier.IsLegible := by
  cases reads with
  | revision flat some => exact ⟨some, (List.forall_mem_append.mp isWord.2).2⟩
  | tag flat some => exact ⟨some, (List.forall_mem_append.mp isWord.2).2⟩
  | date read => exact ⟨Instant.isProper_of_read read, .inr plain⟩

/-- A specifier that was read is legible, if its year is one that is written without a sign. -/
theorem Spells.isLegible {words : List (List Char)} {specifier : Specifier}
    (spelled : Spells words specifier) (areWords : ∀ word ∈ words, IsWord word)
    (plain : specifier.HasPlainYear) : specifier.IsLegible := by
  cases spelled with
  | tip => trivial
  | token read =>
      have isWord := areWords _ List.mem_cons_self
      exact (reads_of_read isWord read).isLegible isWord plain

end Specifier

/-! ## Lines that were read and lines that are written -/

section

variable {c : Char} {line : List Char}

/-- The end of a written line has no more line ends in it than the words that it was read from. -/
theorem Specifier.Spells.count_le {words : List (List Char)} {source : Source}
    (spelled : Specifier.Spells words source.specifier) (areWords : ∀ word ∈ words, IsWord word)
    (ends : EndsLine c) : source.specifierPart.count c ≤ words.flatten.count c := by
  rw [Source.specifierPart]
  generalize source.specifier = specifier at spelled
  cases spelled with
  | tip => exact Nat.zero_le _
  | @token token _ read =>
      rw [List.flatten_singleton]
      cases Specifier.reads_of_read (areWords _ List.mem_cons_self) read with
      | @revision mark id flat some =>
          have fixed : IsFlat Specifier.revisionMark := by decide
          simp only [Specifier.token?, ends.count_space, List.count_append,
            fixed.count_eq_zero ends, flat.count_eq_zero ends, Nat.le_refl]
      | @tag mark name flat some =>
          have fixed : IsFlat Specifier.tagMark := by decide
          simp only [Specifier.token?, ends.count_space, List.count_append,
            fixed.count_eq_zero ends, flat.count_eq_zero ends, Nat.le_refl]
      | @date mark text instant read =>
          -- White space around the parts of a date is passed over, and not written again.
          have fixed : IsFlat Specifier.dateMark := by decide
          have figures := isFlat_of_figures instant.isFigure_text
          simp only [Specifier.token?, ends.count_space, List.count_append,
            fixed.count_eq_zero ends, figures.count_eq_zero ends]
          exact Nat.zero_le _

theorem Header.Spells.count_le {header : Header} (spells : Header.Spells line header)
    (ends : EndsLine c) : header.line.count c ≤ line.count c := by
  have tool : IsFlat Recipe.tool.toList := by decide
  have sign (rest : List Char) : ('#' :: rest).count c = rest.count c := by
    have differs : '#' ≠ c := by
      rintro rfl
      exact absurd ends (by decide)
    exact List.count_cons_of_ne differs
  have held {words : List (List Char)} {rest : List Char} (spaced : Spaced words rest)
      (gap tool : List Char) :
      words.flatten.count c ≤ ('#' :: (gap ++ (tool ++ rest))).count c := by
    rw [sign, List.count_append, List.count_append]
    have within := spaced.flatten_sublist.count_le c
    omega
  rw [Header.line, sign, ends.count_flatMap_space, Header.words, List.cons_append,
    List.flatten_cons, List.count_append, tool.count_eq_zero ends, Nat.zero_add]
  cases spells with
  | plain blank known isFormat spaced => exact held spaced _ _
  | versioned blank known isFormat spaced => exact held spaced _ _

theorem Source.Spells.count_le {source : Source} (spells : Source.Spells line source)
    (ends : EndsLine c) : source.line.count c ≤ line.count c := by
  cases spells with
  | @base location specifier words rest isWord spaced spelled =>
      have part :=
        @Specifier.Spells.count_le c words ⟨location, specifier⟩ spelled spaced.isWord ends
      rw [Source.line, List.count_append, List.count_append]
      exact Nat.add_le_add_left (Nat.le_trans part (spaced.flatten_sublist.count_le c)) _

theorem Entry.Spells.count_le {entry : Entry Source} (spells : Entry.Spells line entry)
    (ends : EndsLine c) : entry.line.count c ≤ line.count c := by
  have indent (depth : Nat) := (isFlat_replicate_space (2 * depth)).count_eq_zero ends
  cases spells with
  | @merge depth nickname location specifier words rest spaced spelled =>
      have part := @Specifier.Spells.count_le c words ⟨location, specifier⟩ spelled
        (fun word member => spaced.isWord word (by simp [member])) ends
      have held := spaced.flatten_sublist.count_le c
      simp only [List.flatten_cons, List.count_append] at held
      simp only [Entry.line, Directive.keyword, Directive.locationPart, List.count_append,
        ends.count_space, indent, List.count_nil]
      omega
  | @nest depth nickname location place specifier words rest spaced spelled =>
      have part := @Specifier.Spells.count_le c words ⟨location, specifier⟩ spelled
        (fun word member => spaced.isWord word (by simp [member])) ends
      have held := spaced.flatten_sublist.count_le c
      simp only [List.flatten_cons, List.count_append] at held
      simp only [Entry.line, Directive.keyword, Directive.locationPart, List.count_append,
        ends.count_space, indent]
      omega

end

/-! ## Recipes that were read -/

/-- The header of a line that was read may be written, the format and the template with it. -/
theorem Header.Spells.isLegible {line : List Char} {header : Header}
    (spells : Header.Spells line header) :
    Header.IsFormat header.format.toList ∧
      ∀ template ∈ header.version, IsWord template.toList := by
  cases spells with
  | plain blank known isFormat spaced =>
      exact ⟨isFormat, fun template impossible => (by cases impossible)⟩
  | versioned blank known isFormat spaced =>
      exact ⟨isFormat, fun template same => (by cases same; exact spaced.isWord _ (by simp))⟩

theorem Source.Spells.isWord {line : List Char} {source : Source}
    (spells : Source.Spells line source) : IsWord source.location.toList := by
  cases spells with
  | base isWord spaced spelled => exact isWord

theorem Source.Spells.specifier {line : List Char} {source : Source}
    (spells : Source.Spells line source) :
    ∃ words, (∀ word ∈ words, IsWord word) ∧ Specifier.Spells words source.specifier := by
  cases spells with
  | base isWord spaced spelled => exact ⟨_, spaced.isWord, spelled⟩

theorem Entry.Spells.hasWords {line : List Char} {entry : Entry Source}
    (spells : Entry.Spells line entry) :
    entry.HasWords ∧
      ∃ words, (∀ word ∈ words, IsWord word) ∧ Specifier.Spells words entry.branch.specifier := by
  cases spells with
  | merge spaced spelled =>
      have words := spaced.isWord
      simp only [List.forall_mem_cons] at words
      obtain ⟨nickname, location, words⟩ := words
      exact ⟨⟨nickname, fun _ impossible => (by cases impossible), location⟩, _, words, spelled⟩
  | nest spaced spelled =>
      have words := spaced.isWord
      simp only [List.forall_mem_cons] at words
      obtain ⟨nickname, location, place, words⟩ := words
      exact ⟨⟨nickname, fun _ same => (by cases same; exact place), location⟩, _, words, spelled⟩

namespace Recipe

variable {recipe : Recipe} {lines : List (List Char)}

/-- Every line of a recipe is written for a line that it was read from, and has no more line ends
in it than that line had. -/
theorem Spells.exists_count_le {c : Char} (ends : EndsLine c)
    (spells : Recipe.Spells lines recipe.header recipe.tree.base
      (recipe.tree.instructions.listing 0)) :
    ∀ written ∈ recipe.lines, ∃ line ∈ lines, written.count c ≤ line.count c := by
  rw [Recipe.lines]
  -- The lines spell a list of entries; that it is the listing of a tree does not matter here.
  generalize recipe.tree.instructions.listing 0 = entries at spells
  cases spells with
  | @recipe first baseLine lines others _ _ _ headerLine significant baseSpelled spelled climbs =>
      have kept {line : List Char} (member : line ∈ baseLine :: others) :
          line ∈ first :: lines := by
        rw [← significant] at member
        exact List.mem_cons_of_mem first (List.mem_of_mem_filter member)
      rw [List.forall_mem_cons, List.forall_mem_cons, List.forall_mem_map]
      refine ⟨⟨first, List.mem_cons_self, headerLine.count_le ends⟩,
        ⟨baseLine, kept List.mem_cons_self, baseSpelled.count_le ends⟩, ?_⟩
      intro entry listed
      obtain ⟨line, member, spells⟩ := Entry.exists_of_spells spelled entry listed
      exact ⟨line, kept (List.mem_cons_of_mem baseLine member), spells.count_le ends⟩

/-- A recipe that was read is legible, if its years are written without a sign. -/
theorem Spells.isLegible
    (spells : Recipe.Spells lines recipe.header recipe.tree.base
      (recipe.tree.instructions.listing 0))
    (plain : ∀ source ∈ recipe.tree.branches, source.specifier.HasPlainYear) :
    recipe.IsLegible := by
  obtain ⟨basePlain, entriesPlain⟩ := forall_mem_branches_iff.mp plain
  generalize listed : recipe.tree.instructions.listing 0 = entries at spells
  cases spells with
  | @recipe first baseLine lines others _ _ _ headerLine significant baseSpelled spelled climbs =>
      have loud : Line.isSilent baseLine = false := by
        have chosen : baseLine ∈ lines.filter fun line => !Line.isSilent line := by
          rw [significant]
          exact List.mem_cons_self
        exact Bool.not_eq_eq_eq_not.mp (List.mem_filter.mp chosen).2
      have named : ∀ entry ∈ entries, entry.HasWords ∧ ∃ words, (∀ word ∈ words, IsWord word) ∧
          Specifier.Spells words entry.branch.specifier := by
        intro entry member
        obtain ⟨line, _, spells⟩ := Entry.exists_of_spells spelled entry member
        exact spells.hasWords
      obtain ⟨format, version⟩ := headerLine.isLegible
      refine ⟨format, version, baseSpelled.isWord, baseSpelled.noComment loud, ?_,
        forall_mem_branches_iff.mpr ⟨?_, ?_⟩⟩
      · rw [listed]
        exact fun entry member => (named entry member).1
      · obtain ⟨words, areWords, specifier⟩ := baseSpelled.specifier
        exact specifier.isLegible areWords basePlain
      · intro entry member
        obtain ⟨_, words, areWords, specifier⟩ := named entry (listed ▸ member)
        exact specifier.isLegible areWords (entriesPlain entry member)

/-- Where a text that was written for a recipe is read as that recipe, each line stands for what it
was written for: none of them says nothing or something else without its carriage returns. -/
theorem Spells.of_dropReturns
    (spells : Recipe.Spells (recipe.lines.map dropReturns ++ [[]]) recipe.header recipe.tree.base
      (recipe.tree.instructions.listing 0)) :
    Header.Spells (dropReturns recipe.header.line) recipe.header ∧
      Source.Spells (dropReturns recipe.tree.base.line) recipe.tree.base ∧
      ∀ entry ∈ recipe.tree.instructions.listing 0,
        Entry.Spells (dropReturns entry.line) entry := by
  rw [Recipe.lines, List.map_cons, List.cons_append] at spells
  generalize recipe.tree.instructions.listing 0 = entries at spells ⊢
  cases spells with
  | @recipe first baseLine lines others _ _ _ headerLine significant baseSpelled spelled climbs =>
      rw [List.filter_append, List.filter_cons_of_neg (by decide), List.filter_nil,
        List.append_nil] at significant
      -- As many lines say something as were written, so all of them do.
      have all : (((recipe.tree.base.line :: entries.map Entry.line).map dropReturns).filter
          fun line => !Line.isSilent line).length =
          ((recipe.tree.base.line :: entries.map Entry.line).map dropReturns).length := by
        rw [significant, List.length_cons, spelled.length_eq, List.length_map, List.length_cons,
          List.length_map]
      rw [List.filter_eq_self.mpr (List.length_filter_eq_length_iff.mp all), List.map_cons,
        List.map_map] at significant
      obtain ⟨rfl, rfl⟩ := List.cons.inj significant
      rw [List.forall₂_map_left_iff, List.forall₂_same] at spelled
      exact ⟨headerLine, baseSpelled, spelled⟩

/-- A line that stands for what it was written for, also without its carriage returns, has none. -/
theorem getLast?_ne_of_count_le {line : List Char}
    (kept : line.count '\r' ≤ (dropReturns line).count '\r') : line.getLast? ≠ some '\r' :=
  fun last => Nat.not_le.mpr (count_dropReturns_lt last) kept

/-- A legible recipe is read back from its text exactly when none of its lines ends in a carriage
return. -/
theorem IsLegible.read_text_iff (legible : recipe.IsLegible)
    (clear : ∀ line ∈ recipe.lines, '\n' ∉ line) (filename : String) :
    Recipe.read filename recipe.text = .ok recipe ↔
      ∀ line ∈ recipe.lines, line.getLast? ≠ some '\r' := by
  constructor
  · intro read
    rw [Recipe.read, text, lines_flatMap_eq_map clear] at read
    have spells := spells_of_readLines read
    obtain ⟨header, base, entries⟩ := Spells.of_dropReturns spells
    rw [Recipe.lines, List.forall_mem_cons, List.forall_mem_cons, List.forall_mem_map]
    refine ⟨getLast?_ne_of_count_le (header.count_le (.inr rfl)),
      getLast?_ne_of_count_le (base.count_le (.inr rfl)), ?_⟩
    exact fun entry listed => getLast?_ne_of_count_le ((entries entry listed).count_le (.inr rfl))
  · intro last
    exact legible.read_text (fun line member => ⟨clear line member, last line member⟩) filename

/-- A recipe that was read, with dates in years of four digits, is read back from its text exactly
when no line of that text ends in a carriage return; and so it is whenever the lines it was read
from hold none, whatever stands at their ends. -/
theorem readText_text_of_read {text : List Char} (read : readText text = .ok recipe)
    (plain : ∀ source ∈ recipe.tree.branches, source.specifier.HasPlainYear) :
    (readText recipe.text = .ok recipe ↔ ∀ line ∈ recipe.lines, line.getLast? ≠ some '\r') ∧
      ((∀ line ∈ Text.lines text, '\r' ∉ line) → readText recipe.text = .ok recipe) := by
  obtain ⟨first, others, whole⟩ := exists_lines_eq_cons text
  have spells : Recipe.Spells (Text.lines text) recipe.header recipe.tree.base
      (recipe.tree.instructions.listing 0) := by
    rw [readText, Recipe.read, whole] at read
    rw [whole]
    exact spells_of_readLines read
  have absent {c : Char} (ends : EndsLine c) (absent : ∀ line ∈ Text.lines text, c ∉ line) :
      ∀ written ∈ recipe.lines, c ∉ written := by
    intro written member
    obtain ⟨line, held, few⟩ := spells.exists_count_le ends written member
    rw [List.count_eq_zero.mpr (absent line held), Nat.le_zero] at few
    exact List.count_eq_zero.mp few
  have clear := absent (.inl rfl) fun line member feed => (mem_lines member _ feed).2 rfl
  have exactly := (spells.isLegible plain).read_text_iff clear defaultFilename
  refine ⟨exactly, fun noReturn => exactly.mpr fun line member last => ?_⟩
  exact absent (.inr rfl) noReturn line member (List.mem_of_getLast? last)

/-- A text with carriage returns at the ends of its lines and inside a word, and a date in a zone
other than the one it is written in. -/
def returningText : List Char :=
  "# git-build-recipe format 0.4\r\nba\rse date:2020-02-29T13:30:00+01:00\r\nmerge a docs b".toList

def returningRecipe : Recipe :=
  ⟨⟨"0.4", none⟩, ⟨⟨"ba\rse", .date ⟨1582979400, 0⟩⟩,
    .step "a" .merge ⟨"docs", .revision "b"⟩ .done .done⟩⟩

theorem readText_text_of_read_returningText :
    readText returningText = .ok returningRecipe ∧
      readText returningRecipe.text = .ok returningRecipe := by
  have read : readText returningText = .ok returningRecipe := by decide +kernel
  have plain : ∀ source ∈ returningRecipe.tree.branches, source.specifier.HasPlainYear := by
    simp only [returningRecipe, Tree.branches, Instructions.branches, List.nil_append,
      List.forall_mem_cons]
    exact ⟨⟨by decide +kernel, by decide +kernel⟩, trivial, List.forall_mem_nil _⟩
  exact ⟨read, (readText_text_of_read read plain).1.mpr (by decide +kernel)⟩

def lone (location : String) : Recipe :=
  ⟨⟨"0.4", none⟩, ⟨⟨location, .tip⟩, .done⟩⟩

/-- A base branch whose name ends in a carriage return, with a blank behind it, is written as
another branch; one whose name is a carriage return is written as no branch. -/
theorem readText_text_ne_of_trailing_return :
    (readText "# git-build-recipe format 0.4\nbase\r \n".toList = .ok (lone "base\r") ∧
        readText (lone "base\r").text = .ok (lone "base") ∧ lone "base" ≠ lone "base\r") ∧
      readText "# git-build-recipe format 0.4\n\r \n".toList = .ok (lone "\r") ∧
        readText (lone "\r").text = .error ⟨"recipe", 3, 1, .empty⟩ := by
  decide +kernel

end Recipe

end SourceRecipe
