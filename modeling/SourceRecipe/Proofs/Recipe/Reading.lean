import SourceRecipe.Proofs.Recipe.Grammar
import SourceRecipe.Proofs.Sequence
import SourceRecipe.Proofs.Text.Cuts
import SourceRecipe.Proofs.Tree.Listing

/-!
# Readers and their grammar

Every reader of a line succeeds on exactly the lines that its grammar names, with the values that
they spell.
-/

namespace SourceRecipe

open SourceRecipe.Text

/-! ## Parts of a line -/

namespace Line

theorem skipBlanks_eq_ok_iff {expected : Expected} {line rest : List Char} :
    skipBlanks expected line = .ok rest ↔
      line ≠ [] ∧ IsBounded line ∧ rest = afterBlanks line := by
  cases line with
  | nil =>
      constructor
      · intro impossible
        cases impossible
      · rintro ⟨nonempty, _⟩
        exact absurd rfl nonempty
  | cons c others =>
      cases blank : isBlank c with
      | false =>
          rw [skipBlanks, if_neg (by rw [blank]; exact Bool.false_ne_true)]
          constructor
          · intro impossible
            cases impossible
          · rintro ⟨_, bounded, _⟩
            rw [bounded c rfl] at blank
            cases blank
      | true =>
          rw [skipBlanks, if_pos blank]
          constructor
          · intro same
            refine ⟨List.cons_ne_nil _ _, ?_, (Except.ok.inj same).symm⟩
            intro d member
            cases member
            exact blank
          · rintro ⟨_, _, rfl⟩
            rfl

theorem takeWord_eq_ok_iff {expected : Expected} {line rest : List Char} {text : String} :
    takeWord expected line = .ok (text, rest) ↔
      word line ≠ [] ∧ text = String.ofList (word line) ∧ rest = afterWord line := by
  rw [takeWord]
  cases first : word line with
  | nil =>
      constructor
      · intro impossible
        cases impossible
      · rintro ⟨nonempty, _⟩
        exact absurd rfl nonempty
  | cons c others =>
      constructor
      · intro same
        cases same
        exact ⟨List.cons_ne_nil _ _, rfl, rfl⟩
      · rintro ⟨_, rfl, rfl⟩
        rfl

theorem nextWord_eq_ok_iff {expected : Expected} {line rest : List Char} {text : String} :
    nextWord expected line = .ok (text, rest) ↔
      IsBounded line ∧ afterBlanks line ≠ [] ∧
        text = String.ofList (word (afterBlanks line)) ∧ rest = afterWord (afterBlanks line) := by
  change (skipBlanks expected line >>= takeWord expected) = _ ↔ _
  simp only [bind_eq_ok_iff, skipBlanks_eq_ok_iff, takeWord_eq_ok_iff]
  constructor
  · rintro ⟨_, ⟨_, bounded, rfl⟩, nonempty, rfl, rfl⟩
    refine ⟨bounded, ?_, rfl, rfl⟩
    intro nothing
    rw [nothing] at nonempty
    exact nonempty rfl
  · rintro ⟨bounded, more, rfl, rfl⟩
    refine ⟨_, ⟨?_, bounded, rfl⟩, word_afterBlanks_ne_nil more, rfl, rfl⟩
    rintro rfl
    exact more rfl

/-- The reader of words takes exactly the first of some spaced words. -/
theorem spaced_cons_iff (expected : Expected) {text : String} {words : List (List Char)}
    {line : List Char} :
    Spaced (text.toList :: words) line ↔
      ∃ rest, nextWord expected line = .ok (text, rest) ∧ Spaced words rest := by
  simp only [Spaced.cons_iff, nextWord_eq_ok_iff, ← String.toList_inj, String.toList_ofList]
  constructor
  · rintro ⟨bounded, more, first, spaced⟩
    exact ⟨_, ⟨bounded, more, first.symm, rfl⟩, spaced⟩
  · rintro ⟨_, ⟨bounded, more, first, rfl⟩, spaced⟩
    exact ⟨bounded, more, first.symm, spaced⟩

/-- A word that was read leaves the end of a word. -/
theorem isBounded_of_nextWord {expected : Expected} {text : String} {line rest : List Char}
    (read : nextWord expected line = .ok (text, rest)) : IsBounded rest := by
  obtain ⟨_, _, _, rfl⟩ := nextWord_eq_ok_iff.mp read
  exact isBounded_afterWord _

theorem finish_eq_ok_iff {line : List Char} : finish line = .ok () ↔ AreBlanks line := by
  rw [← afterBlanks_eq_nil_iff, finish]
  cases afterBlanks line with
  | nil => exact ⟨fun _ => rfl, fun _ => rfl⟩
  | cons c others =>
      constructor
      · intro impossible
        cases impossible
      · intro impossible
        cases impossible

/-- What may stand after the location of a branch is read to the end of the line. -/
theorem takeSpecifier_finish_iff {line : List Char} {specifier : Specifier} :
    (∃ words, Spaced words line ∧ Specifier.Spells words specifier) ↔
      IsBounded line ∧ ∃ rest, takeSpecifier line = .ok (specifier, rest) ∧
        finish rest = .ok () := by
  constructor
  · rintro ⟨words, spaced, spelled⟩
    refine ⟨spaced.isBounded, ?_⟩
    cases spelled with
    | tip =>
        have nothing := afterBlanks_eq_nil_iff.mpr (Spaced.nil_iff.mp spaced)
        refine ⟨[], ?_, rfl⟩
        rw [takeSpecifier, nothing]
        rfl
    | token read =>
        obtain ⟨_, more, rfl, trail⟩ := Spaced.cons_iff.mp spaced
        refine ⟨_, ?_, finish_eq_ok_iff.mpr (Spaced.nil_iff.mp trail)⟩
        rw [takeSpecifier, if_neg (by rw [List.isEmpty_iff]; exact more), read]
  · rintro ⟨bounded, rest, taken, finished⟩
    have trail := finish_eq_ok_iff.mp finished
    rw [takeSpecifier] at taken
    cases more : (afterBlanks line).isEmpty with
    | true =>
        rw [more] at taken
        cases taken
        have blank := afterBlanks_eq_nil_iff.mp (List.isEmpty_iff.mp more)
        exact ⟨[], .done blank, .tip⟩
    | false =>
        rw [more] at taken
        cases read : Specifier.read (word (afterBlanks line)) with
        | error error =>
            rw [read] at taken
            cases taken
        | ok found =>
            rw [read] at taken
            cases taken
            have nonempty : afterBlanks line ≠ [] := by
              rw [← Bool.not_eq_true, List.isEmpty_iff] at more
              exact more
            exact ⟨[_], Spaced.cons_iff.mpr ⟨bounded, nonempty, rfl, .done trail⟩, .token read⟩

end Line

/-! ## The base branch -/

/-- The reader of the base branch accepts exactly the lines of its grammar. -/
theorem Source.read_eq_ok_iff {line : List Char} {source : Source} :
    Source.read line = .ok source ↔ Source.Spells line source := by
  rw [Source.read]
  simp only [bind_eq_ok_iff]
  constructor
  · rintro ⟨⟨location, afterLocation⟩, first, ⟨specifier, rest⟩, taken, _, finished, same⟩
    obtain ⟨nonempty, rfl, rfl⟩ := Line.takeWord_eq_ok_iff.mp first
    obtain ⟨words, spaced, spelled⟩ := Line.takeSpecifier_finish_iff.mpr
      ⟨isBounded_afterWord line, rest, taken, finished⟩
    cases same
    have isWord : IsWord (String.ofList (word line)).toList := by
      rw [String.toList_ofList]
      exact isWord_word nonempty
    have spells := Source.Spells.base isWord spaced spelled
    rw [String.toList_ofList, word_append_afterWord] at spells
    exact spells
  · intro spells
    cases spells with
    | @base location specifier words rest isWord spaced spelled =>
        obtain ⟨bounded, last, taken, finished⟩ :=
          Line.takeSpecifier_finish_iff.mp ⟨words, spaced, spelled⟩
        have first : Line.takeWord .startBranch (location.toList ++ rest) =
            .ok (location, rest) := by
          rw [Line.takeWord_eq_ok_iff, word_append isWord.2 bounded,
            afterWord_append isWord.2 bounded, String.ofList_toList]
          exact ⟨isWord.1, rfl, rfl⟩
        exact ⟨_, first, _, taken, (), finished, rfl⟩

/-! ## Instructions -/

/-- The indent of a line stands for a depth when it has two spaces for each level. -/
theorem Line.depth_eq_ok_iff {line : List Char} {depth : Nat} :
    Line.depth line = .ok depth ↔ blanks line = List.replicate (2 * depth) ' ' := by
  rw [Line.depth]
  constructor
  · intro read
    by_cases tab : '\t' ∈ blanks line
    · rw [if_pos tab] at read
      cases read
    · rw [if_neg tab] at read
      by_cases odd : (blanks line).length % 2 ≠ 0
      · rw [if_pos odd] at read
        cases read
      · rw [if_neg odd] at read
        cases read
        refine List.eq_replicate_iff.mpr ⟨by omega, ?_⟩
        intro c member
        have blank := areBlanks_blanks line c member
        rw [isBlank, Bool.or_eq_true, beq_iff_eq, beq_iff_eq] at blank
        rcases blank with rfl | rfl
        · rfl
        · exact absurd member tab
  · intro spaces
    rw [spaces, if_neg, if_neg]
    · rw [List.length_replicate, Nat.mul_div_cancel_left _ (by decide)]
    · rw [List.length_replicate, Nat.mul_mod_right]
      exact fun odd => odd rfl
    · intro tab
      have space := List.eq_of_mem_replicate tab
      cases space

/-- An indented line is cut into its indent, its keyword and the rest. -/
theorem Line.cut_indented (depth : Nat) (keyword : List Char) {rest : List Char}
    (isWord : IsWord keyword) (bounded : IsBounded rest) :
    let line := List.replicate (2 * depth) ' ' ++ (keyword ++ rest)
    Line.depth line = .ok depth ∧ word (afterBlanks line) = keyword ∧
      afterWord (afterBlanks line) = rest := by
  have blank := areBlanks_replicate (2 * depth)
  have ends := isWord.head? rest
  intro line
  rw [Line.depth_eq_ok_iff, blanks_append blank ends, afterBlanks_append blank ends,
    word_append isWord.2 bounded, afterWord_append isWord.2 bounded]
  exact ⟨rfl, rfl, rfl⟩

/-- What follows the keyword of a merge. -/
theorem Step.read_eq_ok_iff_of_merge {body : List Char} (keyword : word body = "merge".toList)
    {step : Step Source} :
    Step.read body = .ok step ↔
      ∃ nickname location specifier words,
        Spaced (nickname.toList :: location.toList :: words) (afterWord body) ∧
        Specifier.Spells words specifier ∧
        step = ⟨nickname, .merge, ⟨location, specifier⟩, .done⟩ := by
  rw [Step.read, if_pos keyword]
  simp only [bind_eq_ok_iff]
  constructor
  · rintro ⟨⟨nickname, _⟩, first, ⟨location, _⟩, second, ⟨specifier, rest⟩, taken, _, finished,
      same⟩
    cases same
    obtain ⟨words, spaced, spelled⟩ := Line.takeSpecifier_finish_iff.mpr
      ⟨Line.isBounded_of_nextWord second, rest, taken, finished⟩
    have spaced := (Line.spaced_cons_iff .location).mpr ⟨_, second, spaced⟩
    have spaced := (Line.spaced_cons_iff .nickname).mpr ⟨_, first, spaced⟩
    exact ⟨nickname, location, specifier, words, spaced, spelled, rfl⟩
  · rintro ⟨nickname, location, specifier, words, spaced, spelled, rfl⟩
    obtain ⟨_, first, spaced⟩ := (Line.spaced_cons_iff .nickname).mp spaced
    obtain ⟨_, second, spaced⟩ := (Line.spaced_cons_iff .location).mp spaced
    obtain ⟨_, _, taken, finished⟩ := Line.takeSpecifier_finish_iff.mp ⟨words, spaced, spelled⟩
    exact ⟨_, first, _, second, _, taken, (), finished, rfl⟩

/-- What follows the keyword of a nest. -/
theorem Step.read_eq_ok_iff_of_nest {body : List Char} (keyword : word body = "nest".toList)
    {step : Step Source} :
    Step.read body = .ok step ↔
      ∃ nickname location place specifier words,
        Spaced (nickname.toList :: location.toList :: place.toList :: words) (afterWord body) ∧
        Specifier.Spells words specifier ∧
        step = ⟨nickname, .nest place, ⟨location, specifier⟩, .done⟩ := by
  have other : word body ≠ "merge".toList := by
    rw [keyword]
    decide
  rw [Step.read, if_neg other, if_pos keyword]
  simp only [bind_eq_ok_iff]
  constructor
  · rintro ⟨⟨nickname, _⟩, first, ⟨location, _⟩, second, ⟨place, _⟩, third, ⟨specifier, rest⟩,
      taken, _, finished, same⟩
    cases same
    obtain ⟨words, spaced, spelled⟩ := Line.takeSpecifier_finish_iff.mpr
      ⟨Line.isBounded_of_nextWord third, rest, taken, finished⟩
    have spaced := (Line.spaced_cons_iff .nestLocation).mpr ⟨_, third, spaced⟩
    have spaced := (Line.spaced_cons_iff .location).mpr ⟨_, second, spaced⟩
    have spaced := (Line.spaced_cons_iff .nickname).mpr ⟨_, first, spaced⟩
    exact ⟨nickname, location, place, specifier, words, spaced, spelled, rfl⟩
  · rintro ⟨nickname, location, place, specifier, words, spaced, spelled, rfl⟩
    obtain ⟨_, first, spaced⟩ := (Line.spaced_cons_iff .nickname).mp spaced
    obtain ⟨_, second, spaced⟩ := (Line.spaced_cons_iff .location).mp spaced
    obtain ⟨_, third, spaced⟩ := (Line.spaced_cons_iff .nestLocation).mp spaced
    obtain ⟨_, _, taken, finished⟩ := Line.takeSpecifier_finish_iff.mp ⟨words, spaced, spelled⟩
    exact ⟨_, first, _, second, _, third, _, taken, (), finished, rfl⟩

/-- An instruction begins with one of the two keywords. -/
theorem Step.keyword_of_read_eq_ok {body : List Char} {step : Step Source}
    (read : Step.read body = .ok step) :
    word body = "merge".toList ∨ word body = "nest".toList := by
  by_cases merge : word body = "merge".toList
  · exact .inl merge
  · by_cases nest : word body = "nest".toList
    · exact .inr nest
    · rw [Step.read, if_neg merge, if_neg nest] at read
      split at read
      · cases read
      · cases read

/-- The depth and the instruction of a line are read exactly where its grammar has them. -/
theorem Entry.spells_iff {line : List Char} {depth : Nat} {step : Step Source} :
    (Line.depth line = .ok depth ∧ Step.read (afterBlanks line) = .ok step) ↔
      ∃ entry, Entry.bare entry = (depth, step) ∧ Entry.Spells line entry := by
  constructor
  · rintro ⟨indent, read⟩
    have spaces := Line.depth_eq_ok_iff.mp indent
    have whole : List.replicate (2 * depth) ' ' ++
        (word (afterBlanks line) ++ afterWord (afterBlanks line)) = line := by
      rw [word_append_afterWord, ← spaces, blanks_append_afterBlanks]
    rcases Step.keyword_of_read_eq_ok read with keyword | keyword
    · obtain ⟨nickname, location, specifier, words, spaced, spelled, rfl⟩ :=
        (Step.read_eq_ok_iff_of_merge keyword).mp read
      have spells := @Entry.Spells.merge depth _ _ _ _ _ spaced spelled
      rw [← keyword, whole] at spells
      exact ⟨_, rfl, spells⟩
    · obtain ⟨nickname, location, place, specifier, words, spaced, spelled, rfl⟩ :=
        (Step.read_eq_ok_iff_of_nest keyword).mp read
      have spells := @Entry.Spells.nest depth _ _ _ _ _ _ spaced spelled
      rw [← keyword, whole] at spells
      exact ⟨_, rfl, spells⟩
  · rintro ⟨entry, same, spells⟩
    cases spells with
    | @merge level nickname location specifier words rest spaced spelled =>
        cases same
        obtain ⟨indent, keyword, after⟩ :=
          Line.cut_indented level "merge".toList (by decide) spaced.isBounded
        refine ⟨indent, (Step.read_eq_ok_iff_of_merge keyword).mpr ?_⟩
        exact ⟨nickname, location, specifier, words, after.symm ▸ spaced, spelled, rfl⟩
    | @nest level nickname location place specifier words rest spaced spelled =>
        cases same
        obtain ⟨indent, keyword, after⟩ :=
          Line.cut_indented level "nest".toList (by decide) spaced.isBounded
        refine ⟨indent, (Step.read_eq_ok_iff_of_nest keyword).mpr ?_⟩
        exact ⟨nickname, location, place, specifier, words, after.symm ▸ spaced, spelled, rfl⟩

/-! ## The header -/

namespace Header

theorem readSign_eq_ok_iff {line rest : List Char} :
    readSign line = .ok rest ↔ line = '#' :: rest := by
  cases line with
  | nil =>
      constructor
      · intro impossible
        cases impossible
      · intro impossible
        cases impossible
  | cons c others =>
      rw [readSign]
      by_cases sign : c = '#'
      · rw [if_pos sign, sign]
        constructor
        · intro same
          rw [Except.ok.inj same]
        · intro same
          rw [(List.cons.inj same).2]
      · rw [if_neg sign]
        constructor
        · intro impossible
          cases impossible
        · intro same
          exact absurd (List.cons.inj same).1 sign

theorem readTool_eq_ok_iff {line rest : List Char} :
    readTool line = .ok rest ↔
      IsBounded rest ∧ ∃ gap tool, AreBlanks gap ∧ tool ∈ tools ∧
        line = gap ++ (String.toList tool ++ rest) := by
  rw [readTool]
  simp only [bind_eq_ok_iff]
  constructor
  · rintro ⟨⟨tool, left⟩, taken, found⟩
    obtain ⟨nonempty, rfl, rfl⟩ := Line.takeWord_eq_ok_iff.mp taken
    by_cases known : String.ofList (word (afterBlanks line)) ∈ tools
    · rw [if_pos known] at found
      cases found
      refine ⟨isBounded_afterWord _, blanks line, _, areBlanks_blanks line, known, ?_⟩
      rw [String.toList_ofList, word_append_afterWord, blanks_append_afterBlanks]
    · rw [if_neg known] at found
      cases found
  · rintro ⟨bounded, gap, tool, blank, known, rfl⟩
    have isWord : IsWord tool.toList := by
      rcases List.mem_pair.mp known with rfl | rfl
      · decide
      · decide
    have taken : Line.takeWord .tool (afterBlanks (gap ++ (tool.toList ++ rest))) =
        .ok (tool, rest) := by
      rw [afterBlanks_append blank (isWord.head? rest), Line.takeWord_eq_ok_iff,
        word_append isWord.2 bounded, afterWord_append isWord.2 bounded, String.ofList_toList]
      exact ⟨isWord.1, rfl, rfl⟩
    exact ⟨_, taken, if_pos known⟩

theorem spaced_format_iff {words : List (List Char)} {line : List Char} :
    Spaced ("format".toList :: words) line ↔
      ∃ rest, readFormatWord line = .ok rest ∧ Spaced words rest := by
  rw [Spaced.cons_iff, readFormatWord]
  simp only [bind_eq_ok_iff, Line.skipBlanks_eq_ok_iff]
  constructor
  · rintro ⟨bounded, more, keyword, spaced⟩
    refine ⟨_, ⟨_, ⟨?_, bounded, rfl⟩, ?_⟩, spaced⟩
    · rintro rfl
      exact more rfl
    · rw [if_neg (by rw [List.isEmpty_iff]; exact more), if_pos keyword]
  · rintro ⟨rest, ⟨_, ⟨_, bounded, rfl⟩, taken⟩, spaced⟩
    by_cases more : (afterBlanks line).isEmpty
    · rw [if_pos more] at taken
      cases taken
    · rw [if_neg more] at taken
      by_cases keyword : word (afterBlanks line) = "format".toList
      · rw [if_pos keyword] at taken
        cases taken
        exact ⟨bounded, fun nothing => more (List.isEmpty_iff.mpr nothing), keyword, spaced⟩
      · rw [if_neg keyword] at taken
        cases taken

theorem isDigit_of_isNumeral {digits : List Char} (numeral : isNumeral digits = true) :
    ∀ c ∈ digits, c.isDigit = true := by
  rw [isNumeral, Bool.and_eq_true] at numeral
  exact List.all_eq_true.mp numeral.2

/-- The point of a number cuts it into its digits. -/
theorem number?_eq_some_iff {token digits places : List Char} :
    number? token = some (digits, places) ↔
      (token = digits ∧ places = [] ∧ isNumeral digits = true) ∨
        (token = digits ++ '.' :: places ∧ isNumeral digits = true ∧ isNumeral places = true) := by
  have clear {digits : List Char} (numeral : isNumeral digits = true) : '.' ∉ digits := by
    intro point
    have digit := isDigit_of_isNumeral numeral '.' point
    revert digit
    decide
  rw [number?]
  constructor
  · intro found
    cases cut : cutFirst? '.' token with
    | none =>
        rw [cut] at found
        by_cases numeral : isNumeral token = true
        · rw [if_pos numeral] at found
          cases found
          exact .inl ⟨rfl, rfl, numeral⟩
        · rw [if_neg numeral] at found
          cases found
    | some parts =>
        rcases parts with ⟨before, after⟩
        simp only [cut] at found
        by_cases numerals : (isNumeral before && isNumeral after) = true
        · rw [if_pos numerals] at found
          cases found
          rw [Bool.and_eq_true] at numerals
          have whole := append_of_cutFirst? cut
          rw [List.append_assoc, List.singleton_append] at whole
          exact .inr ⟨whole.symm, numerals⟩
        · rw [if_neg numerals] at found
          cases found
  · rintro (⟨rfl, rfl, numeral⟩ | ⟨rfl, numeral, fraction⟩)
    · rw [cutFirst?_eq_none (clear numeral)]
      exact if_pos numeral
    · rw [cutFirst?_append (clear numeral)]
      exact if_pos (by rw [numeral, fraction]; rfl)

theorem isFormat_iff {token : List Char} :
    IsFormat token ↔ ∃ number, number? token = some number ∧ isKnownFormat number = true := by
  constructor
  · intro isFormat
    cases isFormat with
    | whole numeral known =>
        refine ⟨(token, []), number?_eq_some_iff.mpr (.inl ⟨rfl, rfl, numeral⟩), ?_⟩
        rw [isKnownFormat, decide_eq_true_iff, numberBits, List.append_nil]
        exact known
    | @fraction digits places numeral fraction known =>
        refine ⟨(digits, places), number?_eq_some_iff.mpr (.inr ⟨rfl, numeral, fraction⟩), ?_⟩
        rw [isKnownFormat, decide_eq_true_iff]
        exact known
  · rintro ⟨⟨digits, places⟩, number, known⟩
    rw [isKnownFormat, decide_eq_true_iff] at known
    rcases number?_eq_some_iff.mp number with ⟨rfl, rfl, numeral⟩ | ⟨rfl, numeral, fraction⟩
    · rw [numberBits, List.append_nil] at known
      exact .whole numeral known
    · exact .fraction numeral fraction known

theorem readFormat_eq_ok_iff {line rest : List Char} {format : String} :
    readFormat line = .ok (format, rest) ↔
      IsBounded line ∧ word (afterBlanks line) = format.toList ∧ IsFormat format.toList ∧
        rest = afterWord (afterBlanks line) := by
  rw [readFormat, isFormat_iff]
  simp only [bind_eq_ok_iff, Line.skipBlanks_eq_ok_iff]
  constructor
  · rintro ⟨_, ⟨_, bounded, rfl⟩, taken⟩
    cases numeral : number? (word (afterBlanks line)) with
    | none =>
        rw [numeral] at taken
        cases taken
    | some number =>
        simp only [numeral] at taken
        by_cases known : isKnownFormat number = true
        · rw [if_pos known] at taken
          cases taken
          rw [String.toList_ofList]
          exact ⟨bounded, rfl, ⟨number, numeral, known⟩, rfl⟩
        · rw [if_neg known] at taken
          cases taken
  · rintro ⟨bounded, token, ⟨number, numeral, known⟩, rfl⟩
    refine ⟨_, ⟨?_, bounded, rfl⟩, ?_⟩
    · rintro rfl
      rw [← token] at numeral
      cases numeral
    · rw [token, numeral]
      simp only [known, if_true, String.ofList_toList]

/-- The reader of the format accepts exactly the formats. -/
theorem spaced_isFormat_iff {format : String} {words : List (List Char)} {line : List Char} :
    (Spaced (format.toList :: words) line ∧ IsFormat format.toList) ↔
      ∃ rest, readFormat line = .ok (format, rest) ∧ Spaced words rest := by
  simp only [Spaced.cons_iff, readFormat_eq_ok_iff]
  constructor
  · rintro ⟨⟨bounded, more, token, spaced⟩, isFormat⟩
    exact ⟨_, ⟨bounded, token, isFormat, rfl⟩, spaced⟩
  · rintro ⟨_, ⟨bounded, token, isFormat, rfl⟩, spaced⟩
    refine ⟨⟨bounded, ?_, token, spaced⟩, isFormat⟩
    intro nothing
    obtain ⟨number, numeral, _⟩ := isFormat_iff.mp isFormat
    rw [← token, nothing] at numeral
    cases numeral

def versionWords : Option String → List (List Char)
  | none => []
  | some template => ["deb-version".toList, template.toList]

/-- The version template is read to the end of the line. -/
theorem spaced_versionWords_iff {version : Option String} {line : List Char}
    (bounded : IsBounded line) :
    Spaced (versionWords version) line ↔
      ∃ rest, readVersion line = .ok (version, rest) ∧ Line.finish rest = .ok () := by
  rw [readVersion]
  constructor
  · intro spaced
    cases version with
    | none =>
        have nothing := afterBlanks_eq_nil_iff.mpr (Spaced.nil_iff.mp spaced)
        refine ⟨[], ?_, rfl⟩
        rw [nothing]
        rfl
    | some template =>
        obtain ⟨_, more, keyword, spaced⟩ := Spaced.cons_iff.mp spaced
        obtain ⟨rest, taken, trail⟩ := (Line.spaced_cons_iff .versionValue).mp spaced
        refine ⟨rest, ?_, Line.finish_eq_ok_iff.mpr (Spaced.nil_iff.mp trail)⟩
        rw [if_neg (by rw [List.isEmpty_iff]; exact more), if_pos keyword, taken]
        rfl
  · rintro ⟨rest, taken, finished⟩
    have trail := Line.finish_eq_ok_iff.mp finished
    by_cases more : (afterBlanks line).isEmpty
    · rw [if_pos more] at taken
      cases taken
      exact .done (afterBlanks_eq_nil_iff.mp (List.isEmpty_iff.mp more))
    · rw [if_neg more] at taken
      by_cases keyword : word (afterBlanks line) = "deb-version".toList
      · rw [if_pos keyword, bind_eq_ok_iff] at taken
        obtain ⟨⟨template, left⟩, next, same⟩ := taken
        cases same
        have spaced := (Line.spaced_cons_iff .versionValue).mpr ⟨_, next, .done trail⟩
        have nonempty : afterBlanks line ≠ [] := fun nothing =>
          more (List.isEmpty_iff.mpr nothing)
        exact Spaced.cons_iff.mpr ⟨bounded, nonempty, keyword, spaced⟩
      · rw [if_neg keyword] at taken
        cases taken

/-- The words of a header are those of its grammar. -/
theorem spells_iff {line : List Char} {header : Header} :
    Header.Spells line header ↔
      ∃ gap tool rest, AreBlanks gap ∧ tool ∈ tools ∧ IsFormat header.format.toList ∧
        line = '#' :: (gap ++ (String.toList tool ++ rest)) ∧
        Spaced ("format".toList :: header.format.toList :: versionWords header.version) rest := by
  constructor
  · intro spells
    cases spells with
    | plain blank known isFormat spaced => exact ⟨_, _, _, blank, known, isFormat, rfl, spaced⟩
    | versioned blank known isFormat spaced =>
        exact ⟨_, _, _, blank, known, isFormat, rfl, spaced⟩
  · rintro ⟨gap, tool, rest, blank, known, isFormat, rfl, spaced⟩
    rcases header with ⟨format, version⟩
    cases version with
    | none => exact .plain blank known isFormat spaced
    | some template => exact .versioned blank known isFormat spaced

/-- The reader of headers accepts exactly the lines of its grammar. -/
theorem read_eq_ok_iff {line : List Char} {header : Header} :
    Header.read line = .ok header ↔ Header.Spells line header := by
  rw [spells_iff, Header.read]
  simp only [bind_eq_ok_iff, readSign_eq_ok_iff]
  constructor
  · rintro ⟨_, rfl, afterTool, toolRead, _, word, ⟨format, afterFormat⟩, number, ⟨version, rest⟩,
      template, _, finished, same⟩
    cases same
    obtain ⟨_, gap, tool, blank, known, rfl⟩ := readTool_eq_ok_iff.mp toolRead
    obtain ⟨_, _, _, left⟩ := readFormat_eq_ok_iff.mp number
    have bounded : IsBounded afterFormat := by
      rw [left]
      exact isBounded_afterWord _
    have spaced := (spaced_versionWords_iff bounded).mpr ⟨rest, template, finished⟩
    obtain ⟨spaced, isFormat⟩ := spaced_isFormat_iff.mpr ⟨_, number, spaced⟩
    have spaced := spaced_format_iff.mpr ⟨_, word, spaced⟩
    exact ⟨gap, tool, afterTool, blank, known, isFormat, rfl, spaced⟩
  · rintro ⟨gap, tool, rest, blank, known, isFormat, rfl, spaced⟩
    have toolRead := readTool_eq_ok_iff.mpr ⟨spaced.isBounded, gap, tool, blank, known, rfl⟩
    obtain ⟨_, word, spaced⟩ := spaced_format_iff.mp spaced
    obtain ⟨_, number, spaced⟩ := spaced_isFormat_iff.mp ⟨spaced, isFormat⟩
    obtain ⟨_, template, finished⟩ := (spaced_versionWords_iff spaced.isBounded).mp spaced
    exact ⟨_, rfl, _, toolRead, _, word, _, number, _, template, (), finished, rfl⟩

end Header

end SourceRecipe
