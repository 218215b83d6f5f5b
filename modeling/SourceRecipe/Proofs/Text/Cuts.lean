import SourceRecipe.Proofs.Text.Words
import SourceRecipe.Text.Phrase

/-!
# Texts cut at a separator

A text cut at its first separator falls into what stands before and behind it, and a text whose
lines hold no line feed and end in no carriage return falls into exactly those lines.
-/

namespace SourceRecipe.Text

/-! ## The first separator, and a lead -/

theorem cutFirst?_append {separator : Char} {before : List Char} (clear : separator ∉ before)
    (after : List Char) :
    cutFirst? separator (before ++ separator :: after) = some (before, after) := by
  have inside : ∀ c ∈ before, (c != separator) = true := by
    intro c member
    rw [bne_iff_ne]
    rintro rfl
    exact clear member
  have ends : ∀ c ∈ (separator :: after).head?, (c != separator) = false := by
    intro c member
    cases member
    exact bne_self_eq_false separator
  rw [cutFirst?, dropWhile_append_of_ends inside ends, takeWhile_append_of_ends inside ends]

theorem cutFirst?_eq_none {separator : Char} {text : List Char} (clear : separator ∉ text) :
    cutFirst? separator text = none := by
  cases cut : cutFirst? separator text with
  | none => rfl
  | some parts =>
      have whole := append_of_cutFirst? cut
      refine absurd ?_ clear
      rw [← whole]
      exact List.mem_append_left _ (List.mem_append_right _ List.mem_cons_self)

theorem dropLead?_append (lead rest : List Char) : dropLead? lead (lead ++ rest) = some rest := by
  induction lead with
  | nil => rfl
  | cons c lead ih =>
      rw [List.cons_append, dropLead?, if_pos rfl]
      exact ih

/-! ## Lines -/

theorem pieces_ne_nil (separator : Char) (text : List Char) : pieces separator text ≠ [] := by
  cases text with
  | nil => exact List.cons_ne_nil _ _
  | cons c rest =>
      rw [pieces]
      split
      · exact List.cons_ne_nil _ _
      · split
        · exact List.cons_ne_nil _ _
        · exact List.cons_ne_nil _ _

theorem pieces_cons_of_ne {separator c : Char} (differs : c ≠ separator) {rest first : List Char}
    {others : List (List Char)} (cut : pieces separator rest = first :: others) :
    pieces separator (c :: rest) = (c :: first) :: others := by
  rw [pieces, if_neg differs, cut]

/-- A text with a separator in it falls into the pieces before and those behind it. -/
theorem pieces_append_cons (separator : Char) (front rest : List Char) :
    pieces separator (front ++ separator :: rest) =
      pieces separator front ++ pieces separator rest := by
  induction front with
  | nil => rw [List.nil_append, pieces, List.singleton_append, pieces, if_pos rfl]
  | cons c others ih =>
      rw [List.cons_append]
      by_cases same : c = separator
      · rw [pieces, if_pos same, ih, pieces, if_pos same, List.cons_append]
      · cases cut : pieces separator others with
        | nil => exact absurd cut (pieces_ne_nil separator others)
        | cons first later =>
            rw [cut, List.cons_append] at ih
            rw [pieces_cons_of_ne same ih, pieces_cons_of_ne same cut, List.cons_append]

theorem pieces_of_clear {separator : Char} {line : List Char} (clear : separator ∉ line) :
    pieces separator line = [line] := by
  induction line with
  | nil => rfl
  | cons c others ih =>
      have differs : c ≠ separator := by
        rintro rfl
        exact clear List.mem_cons_self
      exact pieces_cons_of_ne differs (ih fun member => clear (List.mem_cons_of_mem c member))

theorem pieces_append {separator : Char} {line : List Char} (clear : separator ∉ line)
    (rest : List Char) :
    pieces separator (line ++ separator :: rest) = line :: pieces separator rest := by
  rw [pieces_append_cons, pieces_of_clear clear, List.singleton_append]

/-- A piece holds characters of the text, and not the separator. -/
theorem mem_pieces {separator : Char} {text piece : List Char}
    (cut : piece ∈ pieces separator text) : ∀ c ∈ piece, c ∈ text ∧ c ≠ separator := by
  induction text generalizing piece with
  | nil =>
      rw [pieces, List.mem_singleton] at cut
      subst cut
      exact List.forall_mem_nil _
  | cons d rest ih =>
      have further {piece : List Char} (cut : piece ∈ pieces separator rest) :
          ∀ c ∈ piece, c ∈ d :: rest ∧ c ≠ separator :=
        fun c member => ⟨List.mem_cons_of_mem d (ih cut c member).1, (ih cut c member).2⟩
      rw [pieces] at cut
      by_cases separates : d = separator
      · rw [if_pos separates] at cut
        rcases List.mem_cons.mp cut with rfl | cut
        · exact List.forall_mem_nil _
        · exact further cut
      · rw [if_neg separates] at cut
        cases whole : pieces separator rest with
        | nil => exact absurd whole (pieces_ne_nil separator rest)
        | cons first others =>
            rw [whole] at cut further
            rcases List.mem_cons.mp cut with rfl | cut
            · exact List.forall_mem_cons.mpr
                ⟨⟨List.mem_cons_self, separates⟩, further List.mem_cons_self⟩
            · exact further (List.mem_cons_of_mem first cut)

theorem not_mem_of_mem_pieces {separator : Char} {text piece : List Char}
    (cut : piece ∈ pieces separator text) : separator ∉ piece :=
  fun member => (mem_pieces cut separator member).2 rfl

/-- Texts without the separator are found again when they are joined by it. -/
theorem pieces_join {separator : Char} {texts : List (List Char)} (some : texts ≠ [])
    (clear : ∀ text ∈ texts, separator ∉ text) :
    pieces separator (join [separator] texts) = texts := by
  induction texts with
  | nil => exact absurd rfl some
  | cons first others ih =>
      obtain ⟨firstClear, othersClear⟩ := List.forall_mem_cons.mp clear
      cases others with
      | nil => exact pieces_of_clear firstClear
      | cons second later =>
          rw [join, List.append_assoc, List.singleton_append, pieces_append firstClear,
            ih (List.cons_ne_nil second later) othersClear]
          exact List.cons_ne_nil second later

/-- A text falls into one piece more than it has separators. -/
theorem length_pieces (separator : Char) (text : List Char) :
    (pieces separator text).length = text.count separator + 1 := by
  induction text with
  | nil => rfl
  | cons c others ih =>
      by_cases same : c = separator
      · rw [pieces, if_pos same, List.length_cons, ih, same, List.count_cons_self]
      · cases cut : pieces separator others with
        | nil => exact absurd cut (pieces_ne_nil separator others)
        | cons first later =>
            rw [cut, List.length_cons] at ih
            rw [pieces_cons_of_ne same cut, List.length_cons, ih, List.count_cons_of_ne same]

/-- Each line feed of a text begins a line. -/
theorem length_lines (text : List Char) : (lines text).length = text.count '\n' + 1 := by
  rw [lines, List.length_map, length_pieces]

/-- Every text has a first line. -/
theorem exists_lines_eq_cons (text : List Char) :
    ∃ first others, lines text = first :: others := by
  rw [lines]
  cases cut : pieces '\n' text with
  | nil => exact absurd cut (pieces_ne_nil '\n' text)
  | cons first others => exact ⟨_, _, rfl⟩

/-- Whether a line of text is one line with nothing at its end that does not count. -/
def IsLine (line : List Char) : Prop :=
  '\n' ∉ line ∧ line.getLast? ≠ some '\r'

theorem dropWhile_reverse_of_stays {line : List Char} (stays : line.getLast? ≠ some '\r') :
    line.reverse.dropWhile (· == '\r') = line.reverse := by
  have ends : ∀ c ∈ line.reverse.head?, (c == '\r') = false := by
    intro c member
    rw [List.head?_reverse] at member
    rw [beq_eq_false_iff_ne]
    rintro rfl
    exact stays member
  exact dropWhile_append_of_ends (List.forall_mem_nil _) ends

theorem dropReturns_of_isLine {line : List Char} (isLine : IsLine line) :
    dropReturns line = line := by
  rw [dropReturns, dropWhile_reverse_of_stays isLine.2, List.reverse_reverse]

theorem dropReturns_sublist (line : List Char) : (dropReturns line).Sublist line := by
  have kept := (List.dropWhile_suffix (l := line.reverse) (· == '\r')).sublist.reverse
  rwa [List.reverse_reverse] at kept

/-- A line holds characters of its text, and no line feed. -/
theorem mem_lines {text line : List Char} (member : line ∈ lines text) :
    ∀ c ∈ line, c ∈ text ∧ c ≠ '\n' := by
  obtain ⟨piece, cut, rfl⟩ := List.mem_map.mp member
  exact fun c kept => mem_pieces cut c ((dropReturns_sublist piece).subset kept)

theorem dropReturns_concat (line : List Char) : dropReturns (line ++ ['\r']) = dropReturns line := by
  rw [dropReturns, List.reverse_append]
  rfl

/-- A line that ends in a carriage return loses one. -/
theorem count_dropReturns_lt {line : List Char} (last : line.getLast? = some '\r') :
    (dropReturns line).count '\r' < line.count '\r' := by
  obtain ⟨front, rfl⟩ := List.getLast?_eq_some_iff.mp last
  rw [dropReturns_concat, List.count_append]
  exact Nat.lt_succ_of_le ((dropReturns_sublist front).count_le '\r')

/-- Lines that are written one after the other, each with a line feed, are found again without the
carriage returns at their ends; after the last line feed there is one more line, which is empty. -/
theorem lines_flatMap_eq_map {written : List (List Char)}
    (clear : ∀ line ∈ written, '\n' ∉ line) :
    lines (written.flatMap (· ++ ['\n'])) = written.map dropReturns ++ [[]] := by
  induction written with
  | nil => rfl
  | cons line others ih =>
      obtain ⟨first, later⟩ := List.forall_mem_cons.mp clear
      have rest := ih later
      rw [lines] at rest ⊢
      rw [List.flatMap_cons, List.append_assoc, List.singleton_append, pieces_append first,
        List.map_cons, rest, List.map_cons, List.cons_append]

/-- Lines that end in no carriage return are found again as they are. -/
theorem lines_flatMap {written : List (List Char)} (areLines : ∀ line ∈ written, IsLine line) :
    lines (written.flatMap (· ++ ['\n'])) = written ++ [[]] := by
  have kept : written.map dropReturns = written := by
    rw [List.map_congr_left fun line member => dropReturns_of_isLine (areLines line member)]
    exact List.map_id' written
  rw [lines_flatMap_eq_map fun line member => (areLines line member).1, kept]

end SourceRecipe.Text
