import SourceRecipe.Proofs.Recipe.Reading

/-!
# Refused texts

A text is refused at one place: at the end of a line where something is missing, or in front of what
cannot be taken.  Nothing behind that line was looked at, so every text that begins with the same
lines is refused in the same way.  Only a text that names no branch is refused for all its lines.
-/

namespace SourceRecipe

open SourceRecipe.Text

/-! ## Places -/

/-- Whether what is left of a line shows a problem: nothing is left where the line ends too early,
what is quoted is what comes next, and an indent has just ended. -/
def Problem.ShowsAt (problem : Problem) (rest : List Char) : Prop :=
  match problem with
  | .lineEnds _ => rest = []
  | .noBlank _ found => rest.head? = some found
  | .unexpected _ found | .unexpectedVersionWord found | .notANumber found | .newerFormat found
  | .trailing found => found.toList <+: rest
  | .badSpecifier error => Specifier.read (word rest) = .error error
  | .tabIndent | .oddIndent | .indentedBase | .indentedFirst | .indentedTwice =>
      ∀ c ∈ rest.head?, isBlank c = false
  | .empty => False

/-- Whether a line is stopped in: the end of the line is left, and it shows the problem. -/
structure Stop.IsIn (stop : Stop) (line : List Char) : Prop where
  suffix : stop.rest <:+ line
  shows : stop.problem.ShowsAt stop.rest

/-- The column counts the characters before the place and the place itself. -/
theorem Stop.IsIn.drop_column {stop : Stop} {line : List Char} (isIn : stop.IsIn line) :
    line.drop (stop.column line - 1) = stop.rest := by
  obtain ⟨front, rfl⟩ := isIn.suffix
  rw [column, List.length_append, Nat.add_sub_cancel, Nat.add_sub_cancel, List.drop_left]

/-- Whether a reader of a line stops in the line, or takes a value and leaves an end of the line;
`left` tells what is left with a value. -/
structure Takes {α : Type} (line : List Char) (left : α → List Char) (answer : Except Stop α) :
    Prop where
  refused : ∀ stop, answer = .error stop → stop.IsIn line
  taken : ∀ value, answer = .ok value → left value <:+ line

namespace Takes

variable {α β : Type} {line : List Char} {left : α → List Char} {leftAfter : β → List Char}

theorem ok {value : α} (suffix : left value <:+ line) : Takes line left (.ok value) := by
  constructor
  · intro stop impossible
    cases impossible
  · intro other same
    cases same
    exact suffix

theorem error {stop : Stop} (isIn : stop.IsIn line) :
    Takes line left (.error stop : Except Stop α) := by
  constructor
  · intro other same
    cases same
    exact isIn
  · intro value impossible
    cases impossible

/-- A reader that begins further on in a line stays in the line. -/
theorem within {inner : List Char} (suffix : inner <:+ line) {answer : Except Stop α}
    (takes : Takes inner left answer) : Takes line left answer where
  refused stop failed :=
    ⟨(takes.refused stop failed).suffix.trans suffix, (takes.refused stop failed).shows⟩
  taken value done := (takes.taken value done).trans suffix

/-- A second reader may look at the same line again. -/
theorem bind {first : Except Stop α} {next : α → Except Stop β} (takes : Takes line left first)
    (goesOn : ∀ value, first = .ok value → Takes line leftAfter (next value)) :
    Takes line leftAfter (first >>= next) := by
  cases first with
  | error stop => exact error (takes.refused stop rfl)
  | ok value => exact goesOn value rfl

/-- A second reader goes on where the first one has left off. -/
theorem andThen {first : Except Stop α} {next : α → Except Stop β} (takes : Takes line left first)
    (goesOn : ∀ value, first = .ok value → Takes (left value) leftAfter (next value)) :
    Takes line leftAfter (first >>= next) :=
  takes.bind fun value done => (goesOn value done).within (takes.taken value done)

end Takes

/-! ## Readers of words -/

theorem toList_word_prefix (rest : List Char) : (String.ofList (word rest)).toList <+: rest := by
  rw [String.toList_ofList]
  exact List.takeWhile_prefix _

theorem afterBlanks_suffix (line : List Char) : afterBlanks line <:+ line :=
  List.dropWhile_suffix _

theorem afterWord_suffix (line : List Char) : afterWord line <:+ line :=
  List.dropWhile_suffix _

theorem unblank_afterBlanks (line : List Char) :
    ∀ c ∈ (afterBlanks line).head?, isBlank c = false :=
  fun _ member => isBlank_of_mem_head?_afterBlanks member

namespace Line

theorem skipBlanks_takes (expected : Expected) (line : List Char) :
    Takes line id (skipBlanks expected line) := by
  cases line with
  | nil => exact .error ⟨List.suffix_rfl, rfl⟩
  | cons c others =>
      rw [skipBlanks]
      split
      · exact .ok (afterBlanks_suffix (c :: others))
      · exact .error ⟨List.suffix_rfl, rfl⟩

/-- Where no blank stands, a word is missing only at the end of the line. -/
theorem takeWord_takes (expected : Expected) {line : List Char}
    (unblank : ∀ c ∈ line.head?, isBlank c = false) :
    Takes line Prod.snd (takeWord expected line) := by
  rw [takeWord]
  cases line with
  | nil => exact .error ⟨List.suffix_rfl, rfl⟩
  | cons c others =>
      have inside : isBlank c = false := unblank c rfl
      have more : word (c :: others) ≠ [] := by
        rw [word, List.takeWhile_cons_of_pos (by rw [inside]; rfl)]
        exact List.cons_ne_nil _ _
      rw [if_neg (by rwa [List.isEmpty_iff])]
      exact .ok (afterWord_suffix (c :: others))

theorem nextWord_takes (expected : Expected) (line : List Char) :
    Takes line Prod.snd (nextWord expected line) := by
  refine (skipBlanks_takes expected line).andThen fun rest skipped => takeWord_takes expected ?_
  obtain ⟨_, _, rfl⟩ := skipBlanks_eq_ok_iff.mp skipped
  exact unblank_afterBlanks line

theorem finish_takes (line : List Char) : Takes line (fun _ => []) (finish line) := by
  rw [finish]
  split
  · exact .ok (List.nil_suffix)
  · exact .error ⟨afterBlanks_suffix line, toList_word_prefix _⟩

theorem takeSpecifier_takes (line : List Char) : Takes line Prod.snd (takeSpecifier line) := by
  rw [takeSpecifier]
  split
  · exact .ok (afterBlanks_suffix line)
  · split
    · exact .ok ((afterWord_suffix _).trans (afterBlanks_suffix line))
    · rename_i error refused
      exact .error ⟨afterBlanks_suffix line, refused⟩

theorem depth_takes (line : List Char) : Takes line (fun _ => []) (depth line) := by
  rw [depth]
  split
  · exact .error ⟨afterBlanks_suffix line, unblank_afterBlanks line⟩
  · split
    · exact .error ⟨afterBlanks_suffix line, unblank_afterBlanks line⟩
    · exact .ok List.nil_suffix

end Line

/-! ## The header -/

namespace Header

theorem readSign_takes (line : List Char) : Takes line id (readSign line) := by
  cases line with
  | nil => exact .error ⟨List.suffix_rfl, rfl⟩
  | cons c others =>
      rw [readSign]
      split
      · exact .ok (List.suffix_cons c others)
      · refine .error ⟨List.suffix_rfl, ?_⟩
        rw [Problem.ShowsAt, String.toList_singleton]
        exact ⟨others, rfl⟩

theorem readTool_takes (line : List Char) : Takes line id (readTool line) := by
  refine .within (afterBlanks_suffix line) ?_
  refine (Line.takeWord_takes .tool (unblank_afterBlanks line)).bind ?_
  rintro ⟨tool, rest⟩ taken
  obtain ⟨_, rfl, rfl⟩ := Line.takeWord_eq_ok_iff.mp taken
  dsimp only
  split
  · exact .ok (afterWord_suffix _)
  · exact .error ⟨List.suffix_rfl, toList_word_prefix _⟩

theorem readFormatWord_takes (line : List Char) : Takes line id (readFormatWord line) := by
  refine (Line.skipBlanks_takes .formatWord line).andThen fun rest _ => ?_
  dsimp only [id]
  split
  · rename_i nothing
    exact .error ⟨List.suffix_rfl, List.isEmpty_iff.mp nothing⟩
  · split
    · exact .ok (afterWord_suffix rest)
    · exact .error ⟨List.suffix_rfl, toList_word_prefix rest⟩

theorem readFormat_takes (line : List Char) : Takes line Prod.snd (readFormat line) := by
  refine (Line.skipBlanks_takes .formatVersion line).andThen fun rest _ => ?_
  dsimp only [id]
  split
  · exact .error ⟨List.suffix_rfl, toList_word_prefix rest⟩
  · split
    · exact .ok (afterWord_suffix rest)
    · exact .error ⟨List.suffix_rfl, toList_word_prefix rest⟩

theorem readVersion_takes (line : List Char) : Takes line Prod.snd (readVersion line) := by
  refine .within (afterBlanks_suffix line) ?_
  rw [readVersion]
  split
  · exact .ok List.suffix_rfl
  · split
    · refine .within (afterWord_suffix _) ?_
      exact (Line.nextWord_takes .versionValue _).andThen fun found _ => .ok List.suffix_rfl
    · exact .error ⟨List.suffix_rfl, toList_word_prefix _⟩

/-- A header stops in its line. -/
theorem read_takes (line : List Char) : Takes line (fun _ => []) (Header.read line) := by
  refine (readSign_takes line).andThen fun afterSign _ => ?_
  refine (readTool_takes afterSign).andThen fun afterTool _ => ?_
  refine (readFormatWord_takes afterTool).andThen fun afterWord _ => ?_
  refine (readFormat_takes afterWord).andThen fun format _ => ?_
  refine (readVersion_takes format.2).andThen fun version _ => ?_
  exact (Line.finish_takes version.2).andThen fun _ _ => .ok List.suffix_rfl

end Header

/-! ## The other lines -/

/-- The base branch stops in its line. -/
theorem Source.read_takes {line : List Char} (unblank : ∀ c ∈ line.head?, isBlank c = false) :
    Takes line (fun _ => []) (Source.read line) := by
  refine (Line.takeWord_takes .startBranch unblank).andThen fun location _ => ?_
  refine (Line.takeSpecifier_takes location.2).andThen fun specifier _ => ?_
  exact (Line.finish_takes specifier.2).andThen fun _ _ => .ok List.suffix_rfl

/-- An instruction stops in its line. -/
theorem Step.read_takes (line : List Char) : Takes line (fun _ => []) (Step.read line) := by
  rw [Step.read]
  split
  · refine .within (afterWord_suffix line) ?_
    refine (Line.nextWord_takes .nickname _).andThen fun nickname _ => ?_
    refine (Line.nextWord_takes .location nickname.2).andThen fun location _ => ?_
    refine (Line.takeSpecifier_takes location.2).andThen fun specifier _ => ?_
    exact (Line.finish_takes specifier.2).andThen fun _ _ => .ok List.suffix_rfl
  · split
    · refine .within (afterWord_suffix line) ?_
      refine (Line.nextWord_takes .nickname _).andThen fun nickname _ => ?_
      refine (Line.nextWord_takes .location nickname.2).andThen fun location _ => ?_
      refine (Line.nextWord_takes .nestLocation location.2).andThen fun place _ => ?_
      refine (Line.takeSpecifier_takes place.2).andThen fun specifier _ => ?_
      exact (Line.finish_takes specifier.2).andThen fun _ _ => .ok List.suffix_rfl
    · split
      · rename_i nothing
        exact .error ⟨List.suffix_rfl, List.isEmpty_iff.mp nothing⟩
      · exact .error ⟨List.suffix_rfl, toList_word_prefix line⟩

/-- What begins like a list that is not empty begins with the head of that list. -/
theorem exists_cons_of_take_succ {α : Type} {count : Nat} {others later : List α} {first : α}
    (same : others.take (count + 1) = (first :: later).take (count + 1)) :
    ∃ rest, others = first :: rest ∧ rest.take count = later.take count := by
  cases others with
  | nil => cases same
  | cons head rest =>
      rw [List.take_succ_cons, List.take_succ_cons] at same
      obtain ⟨rfl, alike⟩ := List.cons.inj same
      exact ⟨rest, rfl, alike⟩

namespace Draft

theorem checkDepth_takes (draft : Draft) (depth : Nat) {rest : List Char}
    (unblank : ∀ c ∈ rest.head?, isBlank c = false) :
    Takes rest (fun _ => []) (draft.checkDepth depth rest) := by
  rw [checkDepth]
  split
  · exact .ok List.nil_suffix
  · split
    · exact .error ⟨List.suffix_rfl, unblank⟩
    · split
      · exact .error ⟨List.suffix_rfl, unblank⟩
      · exact .ok List.nil_suffix

/-- Whatever was read before, a line is stopped in at a place of its own. -/
theorem readLine_takes (draft : Draft) (line : List Char) :
    Takes line (fun _ => []) (draft.readLine line) := by
  have body := afterBlanks_suffix line
  have unblank := unblank_afterBlanks line
  rw [readLine]
  split
  · exact .ok List.nil_suffix
  · refine (Line.depth_takes line).bind fun depth _ => .within body ?_
    dsimp only
    split
    · split
      · exact .error ⟨List.suffix_rfl, unblank⟩
      · exact (Source.read_takes unblank).andThen fun _ _ => .ok List.suffix_rfl
    · refine (draft.checkDepth_takes depth unblank).bind fun _ _ => ?_
      exact (Step.read_takes _).andThen fun _ _ => .ok List.suffix_rfl

/-- The line that stops the reading is one of the lines, and those behind it do not matter. -/
theorem readLines_eq_error {draft : Draft} {number place : Nat} {lines : List (List Char)}
    {line : List Char} {stop : Stop}
    (failed : draft.readLines number lines = .error (place, line, stop)) :
    ∃ index, place = number + index ∧ lines[index]? = some line ∧ stop.IsIn line ∧
      ∀ others : List (List Char), others.take (index + 1) = lines.take (index + 1) →
        draft.readLines number others = .error (place, line, stop) := by
  induction lines generalizing draft number with
  | nil => cases failed
  | cons first later ih =>
      rw [readLines] at failed
      cases read : draft.readLine first with
      | error other =>
          rw [read] at failed
          cases failed
          refine ⟨0, rfl, rfl, (draft.readLine_takes line).refused stop read, ?_⟩
          intro others same
          obtain ⟨rest, rfl, _⟩ := exists_cons_of_take_succ same
          rw [readLines, read]
      | ok next =>
          rw [read] at failed
          obtain ⟨index, rfl, there, isIn, again⟩ := ih failed
          refine ⟨index + 1, by omega, there, isIn, ?_⟩
          intro others same
          obtain ⟨rest, rfl, alike⟩ := exists_cons_of_take_succ same
          rw [readLines, read]
          exact again rest alike

end Draft

/-! ## Whole texts -/

namespace Recipe

/-- Lines are refused for all of them, because none names a branch, or for what one of them says. -/
theorem readLines_eq_error {filename : String} {first : List Char} {lines : List (List Char)}
    {error : ParseError} (refused : readLines filename (first :: lines) = .error error) :
    error = ⟨filename, (first :: lines).length, 1, .empty⟩ ∨
      ∃ (index : Nat) (line : List Char) (stop : Stop),
        error = ⟨filename, index + 1, stop.column line, stop.problem⟩ ∧
        (first :: lines)[index]? = some line ∧ stop.IsIn line ∧
        ∀ others : List (List Char), others.take (index + 1) = (first :: lines).take (index + 1) →
          readLines filename others = .error error := by
  rw [readLines, List.headD_cons, List.tail_cons] at refused
  cases header : Header.read first with
  | error stop =>
      rw [header] at refused
      cases refused
      refine .inr ⟨0, first, stop, rfl, rfl, (Header.read_takes first).refused stop header, ?_⟩
      intro others same
      obtain ⟨rest, rfl, _⟩ := exists_cons_of_take_succ same
      rw [readLines, List.headD_cons, header]
  | ok found =>
      simp only [header] at refused
      cases draft : Draft.empty.readLines 2 lines with
      | ok final =>
          simp only [draft] at refused
          cases named : final.tree? with
          | none =>
              rw [named] at refused
              cases refused
              exact .inl rfl
          | some tree =>
              rw [named] at refused
              cases refused
      | error stopped =>
          rcases stopped with ⟨place, line, stop⟩
          simp only [draft] at refused
          cases refused
          obtain ⟨index, rfl, there, isIn, again⟩ := Draft.readLines_eq_error draft
          refine .inr ⟨index + 1, line, stop, ?_, there, isIn, ?_⟩
          · rw [Nat.add_comm 2, Nat.add_assoc]
          · intro others same
            obtain ⟨rest, rfl, alike⟩ := exists_cons_of_take_succ same
            rw [readLines, List.headD_cons, List.tail_cons, header]
            simp only [again rest alike]

/-- A text that is refused is refused in one of its lines, at a character of that line or right
behind the last one; what is left of the line there shows the problem, and every text that begins
with the same lines up to this one is refused with the same error.  The one other problem is that no
line names a branch. -/
theorem refused_where_shown {filename : String} {text : List Char} {error : ParseError}
    (refused : read filename text = .error error) :
    error.filename = filename ∧ 1 ≤ error.line ∧ error.line ≤ text.count '\n' + 1 ∧
      ∃ line, (Text.lines text)[error.line - 1]? = some line ∧
        1 ≤ error.column ∧ error.column ≤ line.length + 1 ∧
        (error.problem ≠ .empty →
          error.problem.ShowsAt (line.drop (error.column - 1)) ∧
          ∀ other : List Char, (Text.lines other).take error.line = (Text.lines text).take error.line →
            read filename other = .error error) := by
  obtain ⟨first, others, cut⟩ := exists_lines_eq_cons text
  have count := length_lines text
  rw [read, cut] at refused
  rw [← count, cut]
  rcases readLines_eq_error refused with rfl | ⟨index, line, stop, rfl, there, isIn, again⟩
  · have last : others.length < (first :: others).length := Nat.lt_succ_self _
    refine ⟨rfl, Nat.le_add_left 1 _, Nat.le_refl _, _, List.getElem?_eq_getElem last, Nat.le_refl 1,
      Nat.le_add_left 1 _, ?_⟩
    exact fun other => absurd rfl other
  · have before := (List.getElem?_eq_some_iff.mp there).1
    refine ⟨rfl, Nat.le_add_left 1 _, before, line, there, Nat.le_add_left 1 _, ?_, ?_⟩
    · exact Nat.succ_le_succ (Nat.sub_le _ _)
    · intro _
      dsimp only
      rw [isIn.drop_column]
      exact ⟨isIn.shows, fun other same => again _ same⟩

/-- The last instruction is indented by two levels at once. -/
def hastyText : List Char :=
  "# git-build-recipe format 0.4\nbase\nmerge a one\n    merge b two\n".toList

/-- What follows the hasty line, good or bad, does not change how the text is refused. -/
theorem refused_where_shown_hastyText :
    read "recipe" hastyText = .error ⟨"recipe", 4, 5, .indentedTwice⟩ ∧
      4 ≤ hastyText.count '\n' + 1 ∧
      (∃ line, (Text.lines hastyText)[3]? = some line ∧
        ∀ c ∈ (line.drop 4).head?, isBlank c = false) ∧
      read "recipe" (hastyText ++ "nest".toList) = .error ⟨"recipe", 4, 5, .indentedTwice⟩ := by
  have refused : read "recipe" hastyText = .error ⟨"recipe", 4, 5, .indentedTwice⟩ := by
    decide +kernel
  obtain ⟨_, _, inText, line, there, _, _, further⟩ := refused_where_shown refused
  obtain ⟨shown, alike⟩ := further fun impossible => by cases impossible
  exact ⟨refused, inText, ⟨line, there, shown⟩, alike _ (by decide +kernel)⟩

end Recipe

end SourceRecipe
