import SourceRecipe.Recipe.Printer
import SourceRecipe.Proofs.Recipe.Text
import SourceRecipe.Proofs.Time.RoundTrip

/-!
# Recipes from their text

A recipe whose words may be written is read back from its text.  Its lines follow the grammar, so
they are read, with the listing of its instructions; and a listing tells its block.

That the names are words is enough for the lines to follow the grammar.  That they are tokens is
asked for so that the lines are found again in the text.
-/

namespace SourceRecipe

open SourceRecipe.Text SourceRecipe.Time

/-! ## What may be written -/

/-- Whether the token of a specifier says all of it. -/
def Specifier.IsWritable : Specifier → Prop
  | tip => True
  | revision id => IsToken id.toList
  | tag name => IsToken name.toList
  | date instant =>
      instant.IsProper ∧
        (instant.isMidnight = true ∨ (0 ≤ instant.date.year ∧ instant.date.year ≤ 9999))

structure Entry.HasTokens (entry : Entry Source) : Prop where
  nickname : IsToken entry.nickname.toList
  place : ∀ location ∈ entry.directive.location?, IsToken location.toList
  location : IsToken entry.branch.location.toList

/-- Whether the names in a recipe are tokens, of which that of the base branch does not look like
the beginning of a comment. -/
structure Recipe.HasTokens (recipe : Recipe) : Prop where
  version : ∀ template ∈ recipe.header.version, IsToken template.toList
  base : IsToken recipe.tree.base.location.toList
  noComment : recipe.tree.base.location.toList.head? ≠ some '#'
  entries : ∀ entry ∈ recipe.tree.instructions.listing 0, entry.HasTokens

/-- Whether a recipe may be written as a text: the format is one that is read, the names are
tokens, and the tokens of the specifiers say all of them. -/
structure Recipe.IsWritable (recipe : Recipe) : Prop where
  format : Header.IsFormat recipe.header.format.toList
  tokens : recipe.HasTokens
  specifiers : ∀ source ∈ recipe.tree.branches, source.specifier.IsWritable

/-! ## What may stand on a line -/

/-- Whether the token of a specifier is a word that says all of it. -/
def Specifier.IsLegible : Specifier → Prop
  | tip => True
  | revision id => IsWord id.toList
  | tag name => IsWord name.toList
  | date instant =>
      instant.IsProper ∧
        (instant.isMidnight = true ∨ (0 ≤ instant.date.year ∧ instant.date.year ≤ 9999))

structure Entry.HasWords (entry : Entry Source) : Prop where
  nickname : IsWord entry.nickname.toList
  place : ∀ location ∈ entry.directive.location?, IsWord location.toList
  location : IsWord entry.branch.location.toList

/-- Whether the lines of a recipe follow the grammar: the format is one that is read, the names
are words, of which that of the base branch does not look like the beginning of a comment, and the
tokens of the specifiers say all of them. -/
structure Recipe.IsLegible (recipe : Recipe) : Prop where
  format : Header.IsFormat recipe.header.format.toList
  version : ∀ template ∈ recipe.header.version, IsWord template.toList
  base : IsWord recipe.tree.base.location.toList
  noComment : recipe.tree.base.location.toList.head? ≠ some '#'
  entries : ∀ entry ∈ recipe.tree.instructions.listing 0, entry.HasWords
  specifiers : ∀ source ∈ recipe.tree.branches, source.specifier.IsLegible

theorem Specifier.IsWritable.isLegible {specifier : Specifier} (writable : specifier.IsWritable) :
    specifier.IsLegible := by
  cases specifier with
  | tip => trivial
  | revision id => exact IsToken.isWord writable
  | tag name => exact IsToken.isWord writable
  | date instant => exact writable

theorem Entry.HasTokens.hasWords {entry : Entry Source} (tokens : entry.HasTokens) :
    entry.HasWords :=
  ⟨tokens.nickname.isWord, fun location same => (tokens.place location same).isWord,
    tokens.location.isWord⟩

theorem Recipe.IsWritable.isLegible {recipe : Recipe} (writable : recipe.IsWritable) :
    recipe.IsLegible where
  format := writable.format
  version template same := (writable.tokens.version template same).isWord
  base := writable.tokens.base.isWord
  noComment := writable.tokens.noComment
  entries entry listed := (writable.tokens.entries entry listed).hasWords
  specifiers source listed := (writable.specifiers source listed).isLegible

/-! ## Words -/

theorem Text.Spaced.cons {first rest : List Char} {words : List (List Char)}
    (isWord : IsWord first) (spaced : Spaced words rest) :
    Spaced (first :: words) (' ' :: (first ++ rest)) :=
  @Spaced.word [' '] _ _ _ (by decide) (by decide) isWord spaced

theorem Text.spaced_flatMap {words : List (List Char)} (areWords : ∀ word ∈ words, IsWord word) :
    Spaced words (words.flatMap (' ' :: ·)) := by
  induction words with
  | nil => exact .done areBlanks_nil
  | cons first words ih =>
      rw [List.flatMap_cons]
      exact .cons (areWords first List.mem_cons_self)
        (ih fun word member => areWords word (List.mem_cons_of_mem first member))

theorem Text.isFlat_flatMap {words : List (List Char)} (areFlat : ∀ word ∈ words, IsFlat word) :
    IsFlat (words.flatMap (' ' :: ·)) := by
  induction words with
  | nil => exact isFlat_nil
  | cons first words ih =>
      rw [List.flatMap_cons, isFlat_append, isFlat_cons]
      exact ⟨⟨by decide, areFlat first List.mem_cons_self⟩,
        ih fun word member => areFlat word (List.mem_cons_of_mem first member)⟩

namespace Specifier

theorem read_revisionMark (id : List Char) :
    read (revisionMark ++ id) =
      if id.isEmpty then .error (.emptyRevision (String.ofList (revisionMark ++ id)))
      else .ok (.revision (String.ofList id)) := by
  rw [read, dropLead?_append]

theorem read_tagMark (name : List Char) :
    read (tagMark ++ name) =
      if name.isEmpty then .error (.emptyTag (String.ofList (tagMark ++ name)))
      else .ok (.tag (String.ofList name)) := by
  have other : dropLead? revisionMark (tagMark ++ name) = none := rfl
  rw [read, other, dropLead?_append]

theorem read_dateMark (text : List Char) :
    read (dateMark ++ text) =
      match Instant.read text with
      | some instant => .ok (.date instant)
      | none => .error (.notADate (String.ofList text)) := by
  have first : dropLead? revisionMark (dateMark ++ text) = none := rfl
  have second : dropLead? tagMark (dateMark ++ text) = none := rfl
  rewrite [read, first, second, dropLead?_append]
  rfl

/-- The token of a specifier is read back. -/
theorem read_token {specifier : Specifier} (legible : specifier.IsLegible)
    {token : List Char} (written : specifier.token? = some token) :
    read token = .ok specifier := by
  cases specifier with
  | tip => cases written
  | revision id =>
      cases written
      rw [read_revisionMark, List.isEmpty_eq_false_iff.mpr legible.1, if_neg Bool.false_ne_true,
        String.ofList_toList]
  | tag name =>
      cases written
      rw [read_tagMark, List.isEmpty_eq_false_iff.mpr legible.1, if_neg Bool.false_ne_true,
        String.ofList_toList]
  | date instant =>
      cases written
      obtain ⟨proper, year⟩ := legible
      rw [read_dateMark, Instant.read_text proper year]

theorem isWord_token {specifier : Specifier} (legible : specifier.IsLegible)
    {token : List Char} (written : specifier.token? = some token) : IsWord token := by
  cases specifier with
  | tip => cases written
  | revision id =>
      cases written
      exact IsWord.append (by decide) legible.2
  | tag name =>
      cases written
      exact IsWord.append (by decide) legible.2
  | date instant =>
      cases written
      exact IsWord.append (by decide) fun c member =>
        (not_blank_of_isFigure (instant.isFigure_text c member)).1

theorem isFlat_token {specifier : Specifier} (writable : specifier.IsWritable)
    {token : List Char} (written : specifier.token? = some token) : IsFlat token := by
  cases specifier with
  | tip => cases written
  | revision id =>
      cases written
      exact isFlat_append.mpr ⟨by decide, writable.isFlat⟩
  | tag name =>
      cases written
      exact isFlat_append.mpr ⟨by decide, writable.isFlat⟩
  | date instant =>
      cases written
      exact isFlat_append.mpr ⟨by decide, isFlat_of_figures instant.isFigure_text⟩

end Specifier

/-- The end of a line that gives the revision is the token of the specifier or nothing. -/
theorem Source.exists_spaced_specifierPart {source : Source}
    (legible : source.specifier.IsLegible) :
    ∃ words, Spaced words source.specifierPart ∧ Specifier.Spells words source.specifier := by
  rw [specifierPart]
  cases written : source.specifier.token? with
  | none =>
      refine ⟨[], .done areBlanks_nil, ?_⟩
      cases same : source.specifier with
      | tip => exact .tip
      | revision | date | tag =>
          rw [same] at written
          cases written
  | some token =>
      have isWord := Specifier.isWord_token legible written
      have spaced := Spaced.cons isWord (.done areBlanks_nil)
      rw [List.append_nil] at spaced
      exact ⟨[token], spaced, .token (Specifier.read_token legible written)⟩

theorem Source.isFlat_specifierPart {source : Source} (writable : source.specifier.IsWritable) :
    IsFlat source.specifierPart := by
  rw [specifierPart]
  split
  · exact isFlat_nil
  · rename_i token written
    exact isFlat_cons.mpr ⟨by decide, Specifier.isFlat_token writable written⟩

/-! ## Lines -/

theorem Header.isToken_of_isFormat {format : List Char} (isFormat : IsFormat format) :
    IsToken format := by
  have figures {digits : List Char} (numeral : isNumeral digits = true) :
      ∀ c ∈ digits, isFigure c = true :=
    fun c member => isFigure_of_isDigit (isDigit_of_isNumeral numeral c member)
  cases isFormat with
  | whole numeral known =>
      refine isToken_of_figures ?_ (figures numeral)
      rintro rfl
      cases numeral
  | fraction numeral fraction known =>
      refine isToken_of_figures (List.append_ne_nil_of_right_ne_nil _ (List.cons_ne_nil _ _)) ?_
      exact List.forall_mem_append.mpr
        ⟨figures numeral, List.forall_mem_cons.mpr ⟨rfl, figures fraction⟩⟩

/-- What holds of the words that every header has, of its format and of its version template holds
of all its words. -/
theorem Header.forall_mem_words {header : Header} {P : List Char → Prop}
    (fixed : ∀ word ∈ ["git-build-recipe".toList, "format".toList, "deb-version".toList], P word)
    (format : P header.format.toList) (version : ∀ template ∈ header.version, P template.toList) :
    ∀ word ∈ header.words, P word := by
  simp only [List.forall_mem_cons] at fixed
  obtain ⟨tool, formatWord, versionWord, _⟩ := fixed
  rw [Header.words, List.forall_mem_append]
  refine ⟨?_, ?_⟩
  · simp only [List.forall_mem_cons]
    exact ⟨tool, formatWord, format, List.forall_mem_nil _⟩
  · cases found : header.version with
    | none => exact List.forall_mem_nil _
    | some template =>
        simp only [List.forall_mem_cons]
        exact ⟨versionWord, version template found, List.forall_mem_nil _⟩

theorem Recipe.IsLegible.spells_header {recipe : Recipe} (legible : recipe.IsLegible) :
    Header.Spells recipe.header.line recipe.header := by
  have format := legible.format
  have words := Header.forall_mem_words (by decide) (Header.isToken_of_isFormat format).isWord
    legible.version
  rcases recipe with ⟨⟨text, version⟩, tree⟩
  cases version with
  | none =>
      exact @Header.Spells.plain [' '] _ Recipe.tool _ (by decide) List.mem_cons_self format
        (spaced_flatMap fun word member => words word (List.mem_cons_of_mem _ member))
  | some template =>
      exact @Header.Spells.versioned [' '] _ Recipe.tool _ _ (by decide) List.mem_cons_self format
        (spaced_flatMap fun word member => words word (List.mem_cons_of_mem _ member))

theorem Recipe.IsWritable.isFlat_header {recipe : Recipe} (writable : recipe.IsWritable) :
    IsFlat recipe.header.line := by
  have words := Header.forall_mem_words (by decide) (Header.isToken_of_isFormat writable.format)
    writable.tokens.version
  exact isFlat_cons.mpr ⟨by decide, isFlat_flatMap fun word member => (words word member).isFlat⟩

theorem Source.spells {source : Source} (isWord : IsWord source.location.toList)
    (legible : source.specifier.IsLegible) : Source.Spells source.line source := by
  obtain ⟨words, spaced, spelled⟩ := exists_spaced_specifierPart legible
  exact .base isWord spaced spelled

theorem Source.isFlat {source : Source} (token : IsToken source.location.toList)
    (writable : source.specifier.IsWritable) : IsFlat source.line :=
  isFlat_append.mpr ⟨token.isFlat, isFlat_specifierPart writable⟩

theorem Entry.HasWords.spells {entry : Entry Source} (words : entry.HasWords)
    (legible : entry.branch.specifier.IsLegible) : Entry.Spells entry.line entry := by
  obtain ⟨nickname, place, location⟩ := words
  rcases entry with ⟨depth, name, directive, ⟨home, specifier⟩⟩
  obtain ⟨words, spaced, spelled⟩ := Source.exists_spaced_specifierPart legible
  have line (middle : List Char) :
      List.replicate (2 * depth) ' ' ++ directive.keyword.toList ++ ' ' :: name.toList ++
        ' ' :: home.toList ++ middle ++ Source.specifierPart ⟨home, specifier⟩ =
      List.replicate (2 * depth) ' ' ++ (directive.keyword.toList ++ ' ' :: (name.toList ++
        ' ' :: (home.toList ++ (middle ++ Source.specifierPart ⟨home, specifier⟩)))) := by
    simp only [List.append_assoc, List.cons_append]
  rw [Entry.line, line]
  cases directive with
  | merge => exact .merge (.cons nickname (.cons location spaced)) spelled
  | nest spot =>
      have spaced := Spaced.cons (place spot rfl) spaced
      exact .nest (.cons nickname (.cons location spaced)) spelled

theorem Entry.HasTokens.isFlat {entry : Entry Source} (tokens : entry.HasTokens)
    (writable : entry.branch.specifier.IsWritable) : IsFlat entry.line := by
  obtain ⟨nickname, place, location⟩ := tokens
  rcases entry with ⟨depth, name, directive, source⟩
  have keyword : IsFlat directive.keyword.toList := by
    cases directive with
    | merge => decide
    | nest spot => exact (by decide : IsFlat "nest".toList)
  have spot : IsFlat directive.locationPart := by
    cases directive with
    | merge => exact isFlat_nil
    | nest spot => exact isFlat_cons.mpr ⟨by decide, (place spot rfl).isFlat⟩
  simp only [Entry.line, isFlat_append, isFlat_cons]
  exact ⟨⟨⟨⟨⟨isFlat_replicate_space _, keyword⟩, by decide, nickname.isFlat⟩, by decide,
    location.isFlat⟩, spot⟩, Source.isFlat_specifierPart writable⟩

/-! ## Lines that say something -/

theorem Line.isSilent_append {front word rest : List Char} (blank : AreBlanks front)
    (isWord : IsWord word) (sign : word.head? ≠ some '#') :
    Line.isSilent (front ++ (word ++ rest)) = false := by
  rw [Line.isSilent, afterBlanks_append blank (isWord.head? rest)]
  cases word with
  | nil => exact absurd rfl isWord.1
  | cons c others =>
      apply beq_eq_false_iff_ne.mpr
      rintro rfl
      exact sign rfl

theorem Entry.Spells.isSilent {line : List Char} {entry : Entry Source}
    (spells : Entry.Spells line entry) : Line.isSilent line = false := by
  cases spells with
  | merge spaced spelled =>
      exact Line.isSilent_append (areBlanks_replicate _) (by decide) (by decide)
  | nest spaced spelled =>
      exact Line.isSilent_append (areBlanks_replicate _) (by decide) (by decide)

/-! ## Depths -/

/-- The listing of a block goes down one level at a time, and so does what follows it, wherever
the block ends. -/
theorem Instructions.fits_listing {block : Instructions Source} {depth bound : Nat}
    {rest : List Nat} (low : depth ≤ bound) (fits : ∀ bound, depth ≤ bound → Fits bound rest) :
    Fits bound ((block.listing depth).map Entry.depth ++ rest) := by
  induction block generalizing depth bound rest with
  | done => exact fits bound low
  | step nickname directive branch inner later innerIh laterIh =>
      rw [listing, List.map_cons, List.map_append, List.cons_append, List.append_assoc]
      refine ⟨low, innerIh (Nat.le_refl _) ?_⟩
      intro bound below
      exact laterIh (Nat.le_of_succ_le below) fits

/-! ## Whole recipes -/

namespace Recipe

variable {recipe : Recipe}

theorem climbs_listing (block : Instructions Source) :
    Climbs ((block.listing 0).map Entry.depth) := by
  have fits : Fits 0 ((block.listing 0).map Entry.depth ++ []) :=
    Instructions.fits_listing (Nat.le_refl 0) fun _ _ => trivial
  rw [List.append_nil] at fits
  exact climbs_iff_fits.mpr fits

/-- The branches of a recipe are its base branch and those of its instructions. -/
theorem forall_mem_branches_iff {P : Source → Prop} :
    (∀ source ∈ recipe.tree.branches, P source) ↔
      P recipe.tree.base ∧ ∀ entry ∈ recipe.tree.instructions.listing 0, P entry.branch := by
  rw [Tree.branches, List.forall_mem_cons, ← Instructions.map_branch_listing 0,
    List.forall_mem_map]

/-- The lines of a legible recipe follow the grammar; the line after the last line feed says
nothing. -/
theorem IsLegible.spells (legible : recipe.IsLegible) :
    Recipe.Spells (recipe.lines ++ [[]]) recipe.header recipe.tree.base
      (recipe.tree.instructions.listing 0) := by
  obtain ⟨specifier, specifiers⟩ := forall_mem_branches_iff.mp legible.specifiers
  have base : Line.isSilent recipe.tree.base.line = false :=
    Line.isSilent_append areBlanks_nil legible.base legible.noComment
  have spells {entry : Entry Source} (listed : entry ∈ recipe.tree.instructions.listing 0) :
      Entry.Spells entry.line entry :=
    (legible.entries entry listed).spells (specifiers entry listed)
  have spelled : List.Forall₂ Entry.Spells
      ((recipe.tree.instructions.listing 0).map Entry.line)
      (recipe.tree.instructions.listing 0) := by
    rw [List.forall₂_map_left_iff, List.forall₂_same]
    exact fun entry listed => spells listed
  have loud : ((recipe.tree.instructions.listing 0).map Entry.line).filter
      (fun line => !Line.isSilent line) = (recipe.tree.instructions.listing 0).map Entry.line := by
    rw [List.filter_eq_self, List.forall_mem_map]
    intro entry listed
    rw [(spells listed).isSilent]
    rfl
  rw [lines, List.cons_append]
  refine .recipe legible.spells_header ?_ (Source.spells legible.base specifier) spelled
    (climbs_listing _)
  rw [List.filter_append, List.filter_cons_of_pos (by rw [base]; rfl), loud]
  exact List.append_nil _

/-- A legible recipe is read back from its text where its lines are lines of the text, whatever
the text is called. -/
theorem IsLegible.read_text (legible : recipe.IsLegible)
    (areLines : ∀ line ∈ recipe.lines, IsLine line) (filename : String) :
    Recipe.read filename recipe.text = .ok recipe := by
  obtain ⟨block, read, listed⟩ := readLines_of_spells legible.spells filename
  have same : block = recipe.tree.instructions := Instructions.listing_injective listed
  rw [Recipe.read, text, lines_flatMap areLines, read, same]

theorem IsWritable.isLine (writable : recipe.IsWritable) :
    ∀ line ∈ recipe.lines, IsLine line := by
  obtain ⟨specifier, specifiers⟩ := forall_mem_branches_iff.mp writable.specifiers
  rw [lines, List.forall_mem_cons, List.forall_mem_cons, List.forall_mem_map]
  refine ⟨writable.isFlat_header.isLine,
    (Source.isFlat writable.tokens.base specifier).isLine, ?_⟩
  intro entry listed
  exact ((writable.tokens.entries entry listed).isFlat (specifiers entry listed)).isLine

/-- A recipe that may be written is read back from its text, whatever the text is called. -/
theorem IsWritable.read_text (writable : recipe.IsWritable) (filename : String) :
    Recipe.read filename recipe.text = .ok recipe :=
  writable.isLegible.read_text writable.isLine filename

/-- A recipe that may be written is read back from its text: the same header, the same tree, and
the same specifier at every branch. -/
theorem readText_text (writable : recipe.IsWritable) : readText recipe.text = .ok recipe :=
  writable.read_text defaultFilename

/-- A recipe with a branch as of a leap second, one as of the start of a day in a year of five
digits, a tag, a revision and two levels. -/
def sampleRecipe : Recipe :=
  ⟨⟨"0.4", some "1.0+{time}"⟩, ⟨⟨"https://example.net/base", .tip⟩,
    .step "packaging" .merge ⟨"packaging", .date ⟨1483228799, 1500000000⟩⟩ .done
      (.step "doc" (.nest "doc/./") ⟨"docs", .tag "v1"⟩
        (.step "old" .merge ⟨"docs", .revision "a7"⟩ .done
          (.step "far" (.nest "far") ⟨"docs", .date ⟨345600000000, 0⟩⟩ .done .done)) .done)⟩⟩

theorem readText_text_sampleRecipe :
    sampleRecipe.IsWritable ∧ readText sampleRecipe.text = .ok sampleRecipe := by
  have leap : Specifier.IsWritable (.date ⟨1483228799, 1500000000⟩) :=
    ⟨⟨by decide +kernel, .inr ⟨by decide, by decide⟩⟩, .inr (by decide +kernel)⟩
  have start : Specifier.IsWritable (.date ⟨345600000000, 0⟩) :=
    ⟨⟨by decide +kernel, .inl (by decide)⟩, .inl (by decide)⟩
  have specifiers : ∀ source ∈ sampleRecipe.tree.branches, source.specifier.IsWritable := by
    simp only [sampleRecipe, Tree.branches, Instructions.branches, List.nil_append,
      List.append_nil, List.forall_mem_cons]
    exact ⟨trivial, leap, (by decide : IsToken "v1".toList), (by decide : IsToken "a7".toList),
      start, List.forall_mem_nil _⟩
  have entries : ∀ entry ∈ sampleRecipe.tree.instructions.listing 0, entry.HasTokens := by
    have merged {depth : Nat} {nickname : String} {branch : Source}
        (name : IsToken nickname.toList) (location : IsToken branch.location.toList) :
        Entry.HasTokens ⟨depth, nickname, .merge, branch⟩ :=
      ⟨name, fun _ impossible => (by cases impossible), location⟩
    have nested {depth : Nat} {nickname place : String} {branch : Source}
        (name : IsToken nickname.toList) (spot : IsToken place.toList)
        (location : IsToken branch.location.toList) :
        Entry.HasTokens ⟨depth, nickname, .nest place, branch⟩ :=
      ⟨name, fun _ same => (by cases same; exact spot), location⟩
    simp only [sampleRecipe, Instructions.listing, List.nil_append, List.append_nil,
      List.forall_mem_cons]
    exact ⟨merged (by decide) (by decide), nested (by decide) (by decide) (by decide),
      merged (by decide) (by decide), nested (by decide) (by decide) (by decide),
      List.forall_mem_nil _⟩
  have writable : sampleRecipe.IsWritable :=
    ⟨@Header.IsFormat.fraction ['0'] ['4'] rfl rfl (by decide +kernel),
      ⟨fun template same => (by cases same; decide), by decide, by decide, entries⟩, specifiers⟩
  exact ⟨writable, readText_text writable⟩

/-- A recipe of one branch, as of a leap second that no minute ends with. -/
def leapInMinute : Recipe :=
  ⟨⟨"0.4", none⟩, ⟨⟨"base", .date ⟨1483228764, 1333333333⟩⟩, .done⟩⟩

/-- A leap second inside a minute is written as the second after it, and read back as that. -/
theorem not_read_back_of_leap_in_minute :
    leapInMinute.tree.branches.map Source.specifier = [.date ⟨1483228764, 1333333333⟩] ∧
      (⟨1483228764, 1333333333⟩ : Instant).date.year = 2016 ∧
      Header.IsFormat leapInMinute.header.format.toList ∧ leapInMinute.HasTokens ∧
      leapInMinute.text =
        "# git-build-recipe format 0.4\nbase date:2016-12-31T23:59:25.333333333Z\n".toList ∧
      readText leapInMinute.text =
        .ok ⟨⟨"0.4", none⟩, ⟨⟨"base", .date ⟨1483228765, 333333333⟩⟩, .done⟩⟩ ∧
      readText leapInMinute.text ≠ .ok leapInMinute := by
  have format : Header.IsFormat "0.4".toList :=
    @Header.IsFormat.fraction ['0'] ['4'] rfl rfl (by decide +kernel)
  have tokens : leapInMinute.HasTokens :=
    ⟨fun _ impossible => (by cases impossible), by decide, by decide, List.forall_mem_nil _⟩
  have read : readText leapInMinute.text =
      .ok ⟨⟨"0.4", none⟩, ⟨⟨"base", .date ⟨1483228765, 333333333⟩⟩, .done⟩⟩ := by
    decide +kernel
  refine ⟨rfl, by decide +kernel, format, tokens, by decide +kernel, read, ?_⟩
  rw [read]
  decide

end Recipe

end SourceRecipe
