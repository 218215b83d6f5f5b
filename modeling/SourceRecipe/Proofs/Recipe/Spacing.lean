import SourceRecipe.Proofs.Recipe.Refusals
import SourceRecipe.Proofs.Recipe.Text

/-!
# The layout of recipe text

How the lines of a text end does not matter, and a line that says nothing may be put anywhere below
the header.  What is read stays the same, and what is refused is refused in the same way, one line
further down if the new line stands before it.
-/

namespace SourceRecipe

open SourceRecipe.Text

/-! ## Ends of lines -/

namespace Text

/-- A text with a carriage return before each of its line feeds. -/
def withReturns (text : List Char) : List Char :=
  text.flatMap fun c => if c = '\n' then ['\r', '\n'] else [c]

theorem lines_append_cons (front rest : List Char) :
    lines (front ++ '\n' :: rest) = lines front ++ lines rest := by
  rw [lines, pieces_append_cons, List.map_append]
  rfl

theorem lines_of_clear {line : List Char} (clear : '\n' ∉ line) :
    lines line = [dropReturns line] := by
  rw [lines, pieces_of_clear clear, List.map_singleton]

/-- The induction is on the text behind the part of a line that has been passed. -/
theorem lines_append_withReturns (text : List Char) {front : List Char} (clear : '\n' ∉ front) :
    lines (front ++ withReturns text) = lines (front ++ text) := by
  induction text generalizing front with
  | nil => rfl
  | cons c rest ih =>
      by_cases feed : c = '\n'
      · subst feed
        have returned : '\n' ∉ front ++ ['\r'] := by
          rw [List.mem_append]
          rintro (member | impossible)
          · exact clear member
          · cases List.mem_singleton.mp impossible
        have spread : front ++ withReturns ('\n' :: rest) =
            (front ++ ['\r']) ++ '\n' :: withReturns rest := by
          rw [List.append_assoc]
          rfl
        have same : lines (withReturns rest) = lines rest := ih List.not_mem_nil
        rw [spread, lines_append_cons, lines_append_cons, lines_of_clear returned,
          lines_of_clear clear, dropReturns_concat, same]
      · have further : '\n' ∉ front ++ [c] := by
          rw [List.mem_append, List.mem_singleton]
          exact not_or.mpr ⟨clear, Ne.symm feed⟩
        have kept : withReturns (c :: rest) = c :: withReturns rest := by
          rw [withReturns, List.flatMap_cons, if_neg feed]
          rfl
        rw [kept, List.append_cons, List.append_cons front c rest]
        exact ih further

/-- Carriage returns before line feeds make no other lines. -/
theorem lines_withReturns (text : List Char) : lines (withReturns text) = lines text :=
  lines_append_withReturns text List.not_mem_nil

/-- A text that goes on with the end of a line, or ends, adds the same lines behind any other. -/
theorem exists_lines_append {back : List Char} (atEnd : ∀ c ∈ back.head?, c = '\n') :
    ∃ later, ∀ front, lines (front ++ back) = lines front ++ later := by
  cases back with
  | nil => exact ⟨[], fun front => by rw [List.append_nil, List.append_nil]⟩
  | cons c rest =>
      cases atEnd c rfl
      exact ⟨lines rest, fun front => lines_append_cons front rest⟩

/-- Carriage returns are dropped behind a character that is none. -/
theorem dropReturns_append {front : List Char} (stays : front.getLast? ≠ some '\r')
    (rest : List Char) : dropReturns (front ++ rest) = front ++ dropReturns rest := by
  rw [dropReturns, dropReturns, List.reverse_append, List.dropWhile_append,
    dropWhile_reverse_of_stays stays]
  split
  · rename_i nothing
    rw [List.isEmpty_iff.mp nothing, List.reverse_reverse, List.reverse_nil, List.append_nil]
  · rw [List.reverse_append, List.reverse_reverse]

theorem dropReturns_replicate (count : Nat) : dropReturns (List.replicate count '\r') = [] := by
  rw [dropReturns, List.reverse_replicate, List.dropWhile_replicate_eq_filter_not,
    List.filter_replicate_of_neg (by decide), List.reverse_nil]

end Text

/-! ## Lines that say nothing -/

/-- Blanks and a remark, if there is one, say nothing, however the line ends. -/
theorem Line.isSilent_dropReturns {gap remark : List Char} (blank : AreBlanks gap)
    (signed : ∀ c ∈ remark.head?, c = '#') (returns : Nat) :
    Line.isSilent (dropReturns (gap ++ (remark ++ List.replicate returns '\r'))) = true := by
  have gapStays : gap.getLast? ≠ some '\r' := by
    intro last
    have impossible := blank '\r' (List.mem_of_getLast? last)
    cases impossible
  cases remark with
  | nil =>
      rw [List.nil_append, dropReturns_append gapStays, dropReturns_replicate, List.append_nil,
        isSilent, afterBlanks_eq_nil_iff.mpr blank]
  | cons c others =>
      cases signed c rfl
      have signStays : (gap ++ ['#']).getLast? ≠ some '\r' := by
        rw [List.getLast?_concat]
        decide
      rw [List.cons_append, List.append_cons, dropReturns_append signStays, List.append_assoc,
        isSilent, afterBlanks_append blank (fun c first => by cases first; rfl)]
      rfl

namespace Draft

/-- A failure of a reading, one line further down if it is at a line or below it. -/
def movedDown (place : Nat) (failure : Nat × List Char × Stop) : Nat × List Char × Stop :=
  (if place ≤ failure.1 then failure.1 + 1 else failure.1, failure.2)

theorem readLines_cons_of_ok {draft next : Draft} {line : List Char}
    (read : draft.readLine line = .ok next) (number : Nat) (others : List (List Char)) :
    draft.readLines number (line :: others) = next.readLines (number + 1) others := by
  rw [readLines, read]

theorem readLines_cons_of_error {draft : Draft} {line : List Char} {stop : Stop}
    (read : draft.readLine line = .error stop) (number : Nat) (others : List (List Char)) :
    draft.readLines number (line :: others) = .error (number, line, stop) := by
  rw [readLines, read]

/-- Lines that are counted from one number further on fail one line further down. -/
theorem readLines_succ (draft : Draft) {place number : Nat} (before : place ≤ number)
    (lines : List (List Char)) :
    draft.readLines (number + 1) lines =
      (draft.readLines number lines).mapError (movedDown place) := by
  induction lines generalizing draft number with
  | nil => rfl
  | cons line others ih =>
      cases read : draft.readLine line with
      | error stop =>
          rw [readLines_cons_of_error read, readLines_cons_of_error read, Except.mapError,
            movedDown, if_pos before]
      | ok next =>
          rw [readLines_cons_of_ok read, readLines_cons_of_ok read]
          exact ih next (Nat.le_succ_of_le before)

/-- A line that says nothing may stand between any two lines, or behind the last one. -/
theorem readLines_insert (draft : Draft) (number : Nat) {silent : List Char}
    (isSilent : Line.isSilent silent = true) (front later : List (List Char)) :
    draft.readLines number (front ++ silent :: later) =
      (draft.readLines number (front ++ later)).mapError (movedDown (number + front.length)) := by
  induction front generalizing draft number with
  | nil =>
      rw [List.nil_append, List.nil_append, readLines_cons_of_ok (readLine_of_silent isSilent)]
      exact draft.readLines_succ (Nat.le_refl number) later
  | cons line others ih =>
      rw [List.cons_append, List.cons_append]
      cases read : draft.readLine line with
      | error stop =>
          have above : ¬ number + (line :: others).length ≤ number := by
            rw [List.length_cons]
            omega
          rw [readLines_cons_of_error read, readLines_cons_of_error read, Except.mapError,
            movedDown, if_neg above]
      | ok next =>
          have place : number + (line :: others).length = number + 1 + others.length := by
            rw [List.length_cons]
            omega
          rw [readLines_cons_of_ok read, readLines_cons_of_ok read, place]
          exact ih next (number + 1)

end Draft

/-! ## Whole texts -/

/-- That no line names a branch is a problem of no line. -/
theorem Stop.IsIn.problem_ne_empty {stop : Stop} {line : List Char} (isIn : stop.IsIn line) :
    stop.problem ≠ .empty := by
  intro impossible
  have shows := isIn.shows
  rw [impossible] at shows
  exact shows

/-- An error, one line further down if it is at a line or below it, or for all lines. -/
def ParseError.movedDown (place : Nat) (error : ParseError) : ParseError :=
  if error.problem = .empty ∨ place ≤ error.line then { error with line := error.line + 1 }
  else error

namespace Recipe

/-- A line that says nothing may stand anywhere below the header. -/
theorem readLines_insert (filename : String) (header : List Char) {silent : List Char}
    (isSilent : Line.isSilent silent = true) (front later : List (List Char)) :
    readLines filename (header :: front ++ silent :: later) =
      (readLines filename (header :: front ++ later)).mapError
        (ParseError.movedDown (front.length + 2)) := by
  rw [List.cons_append, List.cons_append, readLines, readLines, List.headD_cons, List.headD_cons,
    List.tail_cons, List.tail_cons]
  cases first : Header.read header with
  | error stop =>
      have notEmpty := ((Header.read_takes header).refused stop first).problem_ne_empty
      have above : ¬ (stop.problem = .empty ∨ front.length + 2 ≤ 1) := by
        rintro (impossible | impossible)
        · exact notEmpty impossible
        · omega
      rw [Except.mapError, ParseError.movedDown, if_neg above]
  | ok found =>
      dsimp only
      rw [Draft.empty.readLines_insert 2 isSilent]
      cases read : Draft.empty.readLines 2 (front ++ later) with
      | error failure =>
          obtain ⟨_, _, _, isIn, _⟩ := Draft.readLines_eq_error read
          have notEmpty := isIn.problem_ne_empty
          simp only [Except.mapError, Draft.movedDown, ParseError.movedDown, notEmpty, false_or,
            Nat.add_comm 2 front.length]
          split <;> rfl
      | ok draft =>
          simp only [Except.mapError]
          cases draft.tree? with
          | some tree => rfl
          | none =>
              simp only [ParseError.movedDown, true_or, if_true, List.length_cons,
                List.length_append]
              rfl

/-- Layout does not matter: line feeds may have carriage returns before them, and a line of blanks,
with or without a remark, may be put in at the end of the header or of any line below it.  Errors
stay where they are in their lines. -/
theorem read_ignores_layout (filename : String) (text : List Char) :
    read filename (withReturns text) = read filename text ∧
      ∀ (front back gap remark : List Char) (returns : Nat), text = front ++ back →
        (∀ c ∈ back.head?, c = '\n') → AreBlanks gap → (∀ c ∈ remark.head?, c = '#') →
        '\n' ∉ remark →
          read filename
              (front ++ '\n' :: (gap ++ (remark ++ List.replicate returns '\r') ++ back)) =
            (read filename text).mapError (ParseError.movedDown (front.count '\n' + 2)) := by
  refine ⟨by rw [read, lines_withReturns]; rfl, ?_⟩
  rintro front back gap remark returns rfl atEnd blank signed clear
  have inserted : '\n' ∉ gap ++ (remark ++ List.replicate returns '\r') := by
    simp only [List.mem_append, List.mem_replicate, not_or]
    refine ⟨fun member => ?_, clear, fun impossible => by cases impossible.2⟩
    have impossible := blank '\n' member
    cases impossible
  obtain ⟨later, behind⟩ := exists_lines_append atEnd
  obtain ⟨header, others, cut⟩ := exists_lines_eq_cons front
  have count : others.length = front.count '\n' := by
    have all := length_lines front
    rw [cut, List.length_cons] at all
    exact Nat.succ.inj all
  rw [read, read, lines_append_cons, behind, behind, lines_of_clear inserted, cut, ← count]
  exact readLines_insert filename header (Line.isSilent_dropReturns blank signed returns) others
    later

/-- A remark above the hasty line moves the error down with it, and one behind the text does not;
where no branch is named, the error stays behind all lines. -/
theorem read_ignores_layout_hastyText :
    read "recipe" (withReturns hastyText) = .error ⟨"recipe", 4, 5, .indentedTwice⟩ ∧
      read "recipe" ("# git-build-recipe format 0.4\nbase\nmerge a one".toList ++
          '\n' :: (" ".toList ++ ("# two".toList ++ ['\r']) ++ "\n    merge b two\n".toList)) =
        .error ⟨"recipe", 5, 5, .indentedTwice⟩ ∧
      read "recipe" (hastyText ++ '\n' :: ("\t".toList ++ ([] ++ []) ++ [])) =
        .error ⟨"recipe", 4, 5, .indentedTwice⟩ ∧
      read "recipe" ("# git-build-recipe format 0.4".toList ++
          '\n' :: ([] ++ ("# two".toList ++ []) ++ [])) = .error ⟨"recipe", 2, 1, .empty⟩ := by
  have refused : read "recipe" hastyText = .error ⟨"recipe", 4, 5, .indentedTwice⟩ := by
    decide +kernel
  obtain ⟨returned, inserted⟩ := read_ignores_layout "recipe" hastyText
  obtain ⟨_, insertedBelow⟩ := read_ignores_layout "recipe" "# git-build-recipe format 0.4".toList
  refine ⟨returned.trans refused, ?_, ?_, ?_⟩
  · refine (inserted _ _ _ _ 1 (by decide +kernel) ?_ ?_ ?_ ?_).trans (by decide +kernel)
    all_goals simp [AreBlanks, isBlank]
  · refine (inserted _ _ _ _ 0 (by decide +kernel) ?_ ?_ ?_ ?_).trans (by decide +kernel)
    all_goals simp [AreBlanks, isBlank]
  · refine (insertedBelow _ _ _ _ 0 (by decide +kernel) ?_ ?_ ?_ ?_).trans (by decide +kernel)
    all_goals simp [AreBlanks]

end Recipe

end SourceRecipe
