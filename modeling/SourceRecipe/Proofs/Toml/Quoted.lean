import SourceRecipe.Proofs.Text.Padding
import SourceRecipe.Proofs.Text.Words
import SourceRecipe.Toml.Quoted

/-!
# Strings in TOML read back

Whatever a text is made of, the quotes that are chosen for it hold it.  What is written between
them begins with fewer quotes in a row than would close the string, wherever a reader may be in it;
so the reader takes it character by character up to the quotes at its end, which belong to the text
as far as they are not the closing ones.
-/

namespace SourceRecipe.Toml

open SourceRecipe.Text

namespace Quoting

/-- The most quotes that may stand in a row inside a string. -/
def limit (quoting : Quoting) : Nat :=
  if quoting.long then 2 else 0

theorem marks_eq (quoting : Quoting) :
    quoting.marks = List.replicate (quoting.limit + 1) quoting.mark := by
  rw [marks, limit]
  split <;> rfl

end Quoting

variable {quoting : Quoting}

/-! ## The quotes that close a string -/

def leadingMarks (quoting : Quoting) : List Char → Nat
  | [] => 0
  | c :: rest => if c = quoting.mark then leadingMarks quoting rest + 1 else 0

/-- A text that does not consist of quotes goes on with something else after those it begins
with. -/
theorem exists_after_leadingMarks {text : List Char} (other : ∃ c ∈ text, c ≠ quoting.mark) :
    ∃ c rest, c ≠ quoting.mark ∧
      text = List.replicate (leadingMarks quoting text) quoting.mark ++ c :: rest := by
  induction text with
  | nil =>
      obtain ⟨c, member, _⟩ := other
      cases member
  | cons first others ih =>
      rw [leadingMarks]
      by_cases same : first = quoting.mark
      · obtain ⟨c, member, differs⟩ := other
        have inside : c ∈ others := (List.mem_cons.mp member).resolve_left (same ▸ differs)
        obtain ⟨d, rest, other, whole⟩ := ih ⟨c, inside, differs⟩
        rw [if_pos same]
        refine ⟨d, rest, other, ?_⟩
        conv => lhs; rw [whole, same]
        rfl
      · rw [if_neg same]
        exact ⟨first, others, same, rfl⟩

/-- A text with few quotes in front begins no end of a string, if something else follows them. -/
theorem closing?_eq_none {body : List Char} (few : leadingMarks quoting body ≤ quoting.limit)
    (other : ∃ c ∈ body, c ≠ quoting.mark) (rest : List Char) :
    closing? quoting (body ++ rest) = none := by
  obtain ⟨c, back, differs, whole⟩ := exists_after_leadingMarks other
  have open? : quoting.marks.isPrefixOf (body ++ rest) = false := by
    rw [← Bool.not_eq_true, List.isPrefixOf_iff_prefix, Quoting.marks_eq, whole]
    have more : quoting.limit + 1 =
        leadingMarks quoting body + (quoting.limit - leadingMarks quoting body + 1) := by omega
    rw [more, ← List.replicate_append_replicate, List.append_assoc, List.prefix_append_right_inj,
      List.replicate_succ, List.cons_append, List.cons_prefix_cons]
    exact fun same => differs same.1.symm
  rw [closing?, open?, if_neg Bool.false_ne_true]

/-- Few quotes before the closing ones belong to the string. -/
theorem closing?_of_marks {count : Nat} (few : count ≤ quoting.limit) {rest : List Char}
    (ends : ∀ c ∈ rest.head?, c ≠ quoting.mark) :
    closing? quoting (List.replicate count quoting.mark ++ quoting.marks ++ rest) =
      some (List.replicate count quoting.mark, rest) := by
  have swapped : List.replicate count quoting.mark ++ quoting.marks ++ rest =
      quoting.marks ++ (List.replicate count quoting.mark ++ rest) := by
    rw [Quoting.marks_eq, List.replicate_append_replicate, Nat.add_comm,
      ← List.replicate_append_replicate, List.append_assoc]
  rw [swapped, closing?, if_pos (List.isPrefixOf_iff_prefix.mpr (List.prefix_append _ _)),
    List.drop_left]
  rw [Quoting.limit] at few
  by_cases long : quoting.long = true
  · rw [if_pos long] at few
    dsimp only
    rw [if_pos long]
    have extra : ((List.replicate count quoting.mark ++ rest).take 2).takeWhile
        (· == quoting.mark) = List.replicate count quoting.mark := by
      rw [List.take_append, List.take_of_length_le (by rw [List.length_replicate]; exact few)]
      apply takeWhile_append_of_ends
      · intro c member
        rw [List.eq_of_mem_replicate member, beq_self_eq_true]
      · intro c member
        rw [List.head?_take] at member
        split at member
        · cases member
        · exact beq_eq_false_iff_ne.mpr (ends c member)
    rw [extra, List.drop_left]
  · rw [if_neg long] at few
    dsimp only
    rw [if_neg long, Nat.le_zero.mp few]
    rfl

/-! ## What is written between the quotes -/

/-- Whether a text may stand as it is in quotes without escapes. -/
structure StandsIn (quoting : Quoting) (text : List Char) : Prop where
  chars : ∀ c ∈ text, isLineChar c = true ∨ (c = '\n' ∧ quoting.long = true)
  runs : longestRun quoting.mark 0 text ≤ quoting.limit

theorem longestRun_mono (mark : Char) (text : List Char) {run more : Nat} (less : run ≤ more) :
    longestRun mark run text ≤ longestRun mark more text := by
  induction text generalizing run more with
  | nil => exact less
  | cons c rest ih =>
      rw [longestRun, longestRun]
      split
      · exact ih (Nat.succ_le_succ less)
      · exact Nat.max_le.mpr ⟨Nat.le_trans less (Nat.le_max_left _ _), Nat.le_max_right _ _⟩

theorem leadingMarks_le_longestRun (quoting : Quoting) (text : List Char) (run : Nat) :
    run + leadingMarks quoting text ≤ longestRun quoting.mark run text := by
  induction text generalizing run with
  | nil => exact Nat.le_refl _
  | cons c rest ih =>
      rw [leadingMarks, longestRun]
      split
      · exact Nat.le_trans (by omega) (ih (run + 1))
      · exact Nat.le_max_left _ _

theorem StandsIn.tail {c : Char} {rest : List Char} (stands : StandsIn quoting (c :: rest)) :
    StandsIn quoting rest := by
  refine ⟨fun d member => stands.chars d (List.mem_cons_of_mem c member), ?_⟩
  refine Nat.le_trans ?_ stands.runs
  rw [longestRun]
  split
  · exact longestRun_mono _ rest (Nat.zero_le 1)
  · exact Nat.le_max_right _ _

/-- Few quotes alone are read up to the closing ones. -/
theorem readBody_of_marks {text : List Char} (few : leadingMarks quoting text ≤ quoting.limit)
    (marks : ∀ c ∈ text, c = quoting.mark) {rest : List Char}
    (ends : ∀ c ∈ rest.head?, c ≠ quoting.mark) (fuel : Nat) :
    readBody quoting (fuel + 1) (text ++ quoting.marks ++ rest) = some (text, rest) := by
  have whole : text = List.replicate (leadingMarks quoting text) quoting.mark := by
    have same := List.eq_replicate_of_mem marks
    have length : leadingMarks quoting text = text.length := by
      rw [same, List.length_replicate]
      generalize text.length = count
      induction count with
      | zero => rfl
      | succ count ih => rw [List.replicate_succ, leadingMarks, if_pos rfl, ih]
    rw [length]
    exact same
  have closed := closing?_of_marks few ends
  rw [← whole] at closed
  rw [readBody.eq_def]
  dsimp only
  rw [closed]

/-- A character that stands for itself is read where the string does not end. -/
theorem readBody_cons {c : Char} {text : List Char} (opened : closing? quoting (c :: text) = none)
    (escape : c = '\\' → quoting.escapes = false)
    (stands : isLineChar c = true ∨ (c = '\n' ∧ quoting.long = true)) (fuel : Nat) :
    readBody quoting (fuel + 1) (c :: text) =
      (readBody quoting fuel text).map fun (content, rest) => (c :: content, rest) := by
  have noEscape : ¬ (c = '\\' ∧ quoting.escapes = true) := by
    rintro ⟨same, escapes⟩
    rw [escape same] at escapes
    exact Bool.false_ne_true escapes
  have kept : (isLineChar c || quoting.long && startsLineEnd (c :: text)) = true := by
    rcases stands with line | ⟨rfl, long⟩
    · rw [line, Bool.true_or]
    · rw [long]
      rfl
  rw [readBody.eq_def]
  dsimp only
  rw [opened]
  dsimp only
  rw [if_neg noEscape, if_pos kept]

/-- A text in quotes without escapes is read as it is. -/
theorem readBody_literal (literal : quoting.escapes = false) {text : List Char}
    (stands : StandsIn quoting text) {rest : List Char}
    (ends : ∀ c ∈ rest.head?, c ≠ quoting.mark) {fuel : Nat} (enough : text.length < fuel) :
    readBody quoting fuel (text ++ quoting.marks ++ rest) = some (text, rest) := by
  induction text generalizing fuel with
  | nil =>
      cases fuel with
      | zero => cases enough
      | succ fuel => exact readBody_of_marks (Nat.zero_le _) (by simp) ends fuel
  | cons c text ih =>
      cases fuel with
      | zero => cases enough
      | succ fuel =>
          have few : leadingMarks quoting (c :: text) ≤ quoting.limit := by
            have run := leadingMarks_le_longestRun quoting (c :: text) 0
            rw [Nat.zero_add] at run
            exact Nat.le_trans run stands.runs
          by_cases other : ∃ d ∈ c :: text, d ≠ quoting.mark
          · have opened := closing?_eq_none few other (quoting.marks ++ rest)
            rw [← List.append_assoc] at opened
            have next := ih stands.tail (Nat.lt_of_succ_lt_succ enough)
            rw [List.cons_append, List.cons_append] at opened ⊢
            rw [readBody_cons opened (fun _ => literal) (stands.chars c List.mem_cons_self), next]
            rfl
          · have marks : ∀ d ∈ c :: text, d = quoting.mark :=
              fun d member => Decidable.byContradiction fun differs => other ⟨d, member, differs⟩
            exact readBody_of_marks few marks ends fuel

/-! ## Escapes -/

theorem hexValue?_upperHex : ∀ n < 16, hexValue? (upperHex n) = some n := by
  decide

/-- A control character is read from its code in four digits. -/
theorem readEscape_code {c : Char} (small : c.toNat < 256) (rest : List Char) :
    readEscape ('u' :: '0' :: '0' :: upperHex (c.toNat / 16) :: upperHex (c.toNat % 16) :: rest) =
      some (c, rest) := by
  have high := hexValue?_upperHex (c.toNat / 16) (by omega)
  have low := hexValue?_upperHex (c.toNat % 16) (Nat.mod_lt _ (by decide))
  have zero : hexValue? '0' = some 0 := rfl
  have code : 16 * (16 * (16 * (16 * 0 + 0) + 0) + c.toNat / 16) + c.toNat % 16 = c.toNat := by
    omega
  rw [readEscape, readCode, zero, Option.bind_eq_bind, Option.bind_some, readCode, zero,
    Option.bind_eq_bind, Option.bind_some, readCode, high, Option.bind_eq_bind, Option.bind_some,
    readCode, low, Option.bind_eq_bind, Option.bind_some, readCode, code,
    if_pos (show c.toNat.isValidChar from c.valid), Char.ofNat_toNat]

/-- A character is written as itself or as an escape that is read as the character. -/
theorem charText_cases (long : Bool) {c : Char} (other : c ≠ '"') :
    (charText long c = [c] ∧ c ≠ '\\' ∧ (isLineChar c = true ∨ c = '\n' ∧ long = true)) ∨
      ∃ escape, charText long c = '\\' :: escape ∧ ∀ rest,
        readEscape (escape ++ rest) = some (c, rest) ∧ afterFold? (escape ++ rest) = none := by
  rw [charText]
  split
  case isTrue same =>
    subst same
    exact .inr ⟨['\\'], rfl, fun rest => ⟨rfl, rfl⟩⟩
  case isFalse slash =>
  split
  case isTrue same =>
    subst same
    exact .inr ⟨['b'], rfl, fun rest => ⟨rfl, rfl⟩⟩
  case isFalse =>
  split
  case isTrue same =>
    subst same
    exact .inr ⟨['t'], rfl, fun rest => ⟨rfl, rfl⟩⟩
  case isFalse =>
  split
  case isTrue same =>
    subst same
    cases long with
    | true => exact .inl ⟨rfl, slash, .inr ⟨rfl, rfl⟩⟩
    | false => exact .inr ⟨['n'], rfl, fun rest => ⟨rfl, rfl⟩⟩
  case isFalse =>
  split
  case isTrue same =>
    subst same
    exact .inr ⟨['f'], rfl, fun rest => ⟨rfl, rfl⟩⟩
  case isFalse =>
  split
  case isTrue same =>
    subst same
    exact .inr ⟨['r'], rfl, fun rest => ⟨rfl, rfl⟩⟩
  case isFalse =>
  split
  case isTrue line => exact .inl ⟨rfl, slash, .inl line⟩
  case isFalse control =>
    have small : c.toNat < 256 := by
      simp only [isLineChar, Bool.or_eq_true, Bool.and_eq_true, beq_iff_eq, decide_eq_true_eq,
        bne_iff_ne] at control
      by_cases delete : c = '\x7f'
      · rw [delete]
        decide
      · have low : ¬ 0x20 ≤ c.toNat := fun high => control (.inr ⟨high, delete⟩)
        omega
    exact .inr ⟨['u', '0', '0', upperHex (c.toNat / 16), upperHex (c.toNat % 16)], rfl,
      fun rest => ⟨readEscape_code small rest, rfl⟩⟩

/-- An escape is read as its character. -/
theorem readBody_escape (escapes : quoting.escapes = true) {escape text : List Char} {c : Char}
    (opened : closing? quoting ('\\' :: (escape ++ text)) = none)
    (read : readEscape (escape ++ text) = some (c, text))
    (noFold : afterFold? (escape ++ text) = none) (fuel : Nat) :
    readBody quoting (fuel + 1) ('\\' :: (escape ++ text)) =
      (readBody quoting fuel text).map fun (content, rest) => (c :: content, rest) := by
  rw [readBody.eq_def]
  dsimp only
  rw [opened]
  dsimp only
  rw [if_pos ⟨rfl, escapes⟩, noFold, ite_self]
  dsimp only
  rw [read]

/-! ## Strings with escapes -/

section Escaped

variable (escapes : quoting.escapes = true)

include escapes

theorem mark_eq : quoting.mark = '"' := by
  rw [Quoting.mark, if_pos escapes]

/-- What the next character is written as: a quote as it is, an escape, or a character as it is. -/
theorem bodyText_cons_cases (run : Nat) (c : Char) (rest : List Char) :
    (c = '"' ∧ run < quoting.limit ∧
        bodyText quoting run (c :: rest) = c :: bodyText quoting (run + 1) rest) ∨
      (∃ escape, bodyText quoting run (c :: rest) = '\\' :: (escape ++ bodyText quoting 0 rest) ∧
        ∀ text, readEscape (escape ++ text) = some (c, text) ∧
          afterFold? (escape ++ text) = none) ∨
      (c ≠ '"' ∧ c ≠ '\\' ∧ (isLineChar c = true ∨ (c = '\n' ∧ quoting.long = true)) ∧
        bodyText quoting run (c :: rest) = c :: bodyText quoting 0 rest) := by
  have noLiteral : ¬ (!quoting.escapes) = true := by
    rw [escapes]
    exact Bool.false_ne_true
  rw [bodyText, if_neg noLiteral, ← Quoting.limit]
  by_cases quote : c = '"'
  · rw [if_pos quote]
    by_cases few : run < quoting.limit
    · rw [if_pos few]
      exact .inl ⟨quote, few, by rw [quote]⟩
    · rw [if_neg few]
      subst quote
      exact .inr (.inl ⟨['"'], rfl, fun text => ⟨rfl, rfl⟩⟩)
  · rw [if_neg quote]
    rcases charText_cases quoting.long quote with ⟨single, slash, stands⟩ | ⟨escape, written, read⟩
    · rw [single]
      exact .inr (.inr ⟨quote, slash, stands, rfl⟩)
    · rw [written]
      exact .inr (.inl ⟨escape, rfl, read⟩)

/-- What is written between quotes begins with no more of them than may stand there. -/
theorem leadingMarks_bodyText (text : List Char) {run : Nat} (few : run ≤ quoting.limit) :
    run + leadingMarks quoting (bodyText quoting run text) ≤ quoting.limit := by
  have mark := mark_eq escapes
  induction text generalizing run with
  | nil => exact few
  | cons c rest ih =>
      rcases bodyText_cons_cases escapes run c rest with
        ⟨quote, less, written⟩ | ⟨escape, written, _⟩ | ⟨other, _, _, written⟩
      · rw [written, leadingMarks, mark, if_pos quote]
        have more : run + 1 + leadingMarks quoting (bodyText quoting (run + 1) rest) ≤
            quoting.limit := ih less
        omega
      · rw [written, leadingMarks, mark, if_neg (by decide)]
        exact few
      · rw [written, leadingMarks, mark, if_neg other]
        exact few

/-- Where nothing but quotes is written, the text is written as it is. -/
theorem bodyText_of_marks (text : List Char) {run : Nat}
    (marks : ∀ c ∈ bodyText quoting run text, c = quoting.mark) :
    bodyText quoting run text = text := by
  have mark := mark_eq escapes
  induction text generalizing run with
  | nil => rfl
  | cons c rest ih =>
      rcases bodyText_cons_cases escapes run c rest with
        ⟨_, _, written⟩ | ⟨escape, written, _⟩ | ⟨other, _, _, written⟩
      · rw [written] at marks ⊢
        rw [ih fun d member => marks d (List.mem_cons_of_mem c member)]
      · rw [written] at marks
        exact absurd ((marks '\\' List.mem_cons_self).trans mark) (by decide)
      · rw [written] at marks
        exact absurd ((marks c List.mem_cons_self).trans mark) other

/-- A text in quotes with escapes is read back. -/
theorem readBody_escaped {text : List Char} {run : Nat} (few : run ≤ quoting.limit)
    {rest : List Char} (ends : ∀ c ∈ rest.head?, c ≠ quoting.mark) {fuel : Nat}
    (enough : text.length < fuel) :
    readBody quoting fuel (bodyText quoting run text ++ quoting.marks ++ rest) =
      some (text, rest) := by
  have mark := mark_eq escapes
  induction text generalizing run fuel with
  | nil =>
      cases fuel with
      | zero => cases enough
      | succ fuel => exact readBody_of_marks (Nat.zero_le _) (by simp [bodyText]) ends fuel
  | cons c text ih =>
      cases fuel with
      | zero => cases enough
      | succ fuel =>
          have leading : leadingMarks quoting (bodyText quoting run (c :: text)) ≤ quoting.limit :=
            Nat.le_trans (Nat.le_add_left _ run) (leadingMarks_bodyText escapes (c :: text) few)
          have less := Nat.lt_of_succ_lt_succ enough
          by_cases other : ∃ d ∈ bodyText quoting run (c :: text), d ≠ quoting.mark
          · have opened := closing?_eq_none leading other (quoting.marks ++ rest)
            rw [← List.append_assoc] at opened
            rcases bodyText_cons_cases escapes run c text with
              ⟨quote, more, written⟩ | ⟨escape, written, read⟩ | ⟨_, slash, stands, written⟩
            · rw [written, List.cons_append, List.cons_append] at opened ⊢
              rw [readBody_cons opened (fun same => absurd (quote.symm.trans same) (by decide))
                (.inl (by rw [quote]; rfl)), ih more less]
              rfl
            · rw [written, List.cons_append, List.cons_append, List.append_assoc,
                List.append_assoc] at opened ⊢
              obtain ⟨readBack, noFold⟩ := read (bodyText quoting 0 text ++ (quoting.marks ++ rest))
              rw [readBody_escape escapes opened readBack noFold, ← List.append_assoc,
                ih (Nat.zero_le _) less]
              rfl
            · rw [written, List.cons_append, List.cons_append] at opened ⊢
              rw [readBody_cons opened (fun same => absurd same slash) stands,
                ih (Nat.zero_le _) less]
              rfl
          · have marks : ∀ d ∈ bodyText quoting run (c :: text), d = quoting.mark :=
              fun d member => Decidable.byContradiction fun differs => other ⟨d, member, differs⟩
            have same := bodyText_of_marks escapes (c :: text) marks
            rw [same] at leading marks ⊢
            exact readBody_of_marks leading marks ends fuel

end Escaped

/-! ## The chosen quotes -/

def Holds (quoting : Quoting) (text : List Char) : Prop :=
  quoting.escapes = false → StandsIn quoting text

theorem bodyText_of_literal (literal : quoting.escapes = false) (run : Nat) (text : List Char) :
    bodyText quoting run text = text := by
  induction text generalizing run with
  | nil => rfl
  | cons c rest ih => rw [bodyText, if_pos (by rw [literal]; rfl), ih]

/-- What is written between the quotes is read up to the closing ones. -/
theorem readBody_bodyText {text : List Char} (holds : Holds quoting text) {rest : List Char}
    (ends : ∀ c ∈ rest.head?, c ≠ quoting.mark) {fuel : Nat} (enough : text.length < fuel) :
    readBody quoting fuel (bodyText quoting 0 text ++ quoting.marks ++ rest) =
      some (text, rest) := by
  cases escapes : quoting.escapes with
  | false =>
      rw [bodyText_of_literal escapes]
      exact readBody_literal escapes (holds escapes) ends enough
  | true => exact readBody_escaped escapes (Nat.zero_le _) ends enough

theorem length_le_bodyText (quoting : Quoting) (run : Nat) (text : List Char) :
    text.length ≤ (bodyText quoting run text).length := by
  cases escapes : quoting.escapes with
  | false => exact Nat.le_of_eq (congrArg List.length (bodyText_of_literal escapes run text)).symm
  | true =>
      induction text generalizing run with
      | nil => exact Nat.le_refl _
      | cons c rest ih =>
          rcases bodyText_cons_cases escapes run c rest with
            ⟨_, _, written⟩ | ⟨escape, written, _⟩ | ⟨_, _, _, written⟩
          · rw [written]
            exact Nat.succ_le_succ (ih _)
          · rw [written, List.length_cons, List.length_cons, List.length_append]
            exact Nat.succ_le_succ (Nat.le_trans (ih 0) (Nat.le_add_left _ _))
          · rw [written]
            exact Nat.succ_le_succ (ih _)

/-- What is written first is no quote, if no quote may stand in the string. -/
theorem head?_bodyText_of_short (short : quoting.long = false) {text : List Char}
    (holds : Holds quoting text) :
    ∀ c ∈ (bodyText quoting 0 text).head?, c ≠ quoting.mark := by
  have none : leadingMarks quoting (bodyText quoting 0 text) = 0 := by
    have limit : quoting.limit = 0 := by rw [Quoting.limit, short, if_neg Bool.false_ne_true]
    cases escapes : quoting.escapes with
    | false =>
        rw [bodyText_of_literal escapes]
        have few := leadingMarks_le_longestRun quoting text 0
        have runs := (holds escapes).runs
        omega
    | true =>
        have few := leadingMarks_bodyText escapes text (Nat.zero_le quoting.limit)
        omega
  intro c member same
  cases written : bodyText quoting 0 text with
  | nil =>
      rw [written] at member
      cases member
  | cons d others =>
      rw [written] at member none
      cases member
      rw [leadingMarks, if_pos same] at none
      cases none

/-- What is written first is a backslash or a character of the text. -/
theorem head?_bodyText {text : List Char} (holds : Holds quoting text) :
    ∀ c ∈ (bodyText quoting 0 text).head?,
      c = '\\' ∨ (c ∈ text ∧ (isLineChar c = true ∨ c = '\n')) := by
  intro c member
  cases text with
  | nil => cases member
  | cons d rest =>
      cases escapes : quoting.escapes with
      | false =>
          rw [bodyText_of_literal escapes] at member
          cases member
          have stands := (holds escapes).chars c List.mem_cons_self
          exact .inr ⟨List.mem_cons_self, stands.imp_right And.left⟩
      | true =>
          rcases bodyText_cons_cases escapes 0 d rest with
            ⟨quote, _, written⟩ | ⟨escape, written, _⟩ | ⟨_, _, stands, written⟩
          · rw [written] at member
            cases member
            exact .inr ⟨List.mem_cons_self, .inl (by rw [quote]; rfl)⟩
          · rw [written] at member
            cases member
            exact .inl rfl
          · rw [written] at member
            cases member
            exact .inr ⟨List.mem_cons_self, stands.imp_right And.left⟩

theorem afterOpening_of_ne {text : List Char}
    (first : ∀ c ∈ text.head?, c ≠ '\n' ∧ c ≠ '\r') : afterOpening text = text := by
  unfold afterOpening
  split
  case h_1 => exact absurd rfl (first '\n' rfl).1
  case h_2 => exact absurd rfl (first '\r' rfl).2
  case h_3 => rfl

/-- A text without line feeds is not written with the end of a line in front. -/
theorem afterOpening_bodyText {text : List Char} (holds : Holds quoting text)
    (oneLine : '\n' ∉ text) (rest : List Char) :
    afterOpening (bodyText quoting 0 text ++ quoting.marks ++ rest) =
      bodyText quoting 0 text ++ quoting.marks ++ rest := by
  apply afterOpening_of_ne
  intro c member
  cases written : bodyText quoting 0 text with
  | nil =>
      rw [written, List.nil_append, Quoting.marks_eq, List.replicate_succ] at member
      cases member
      rw [Quoting.mark]
      split <;> decide
  | cons d others =>
      have first := head?_bodyText holds d (by rw [written]; rfl)
      rw [written] at member
      cases member
      rcases first with rfl | ⟨inside, line | rfl⟩
      · decide
      · constructor <;> (rintro rfl; exact absurd line (by decide))
      · exact absurd inside oneLine

/-- Quotes without escapes are chosen only for texts that may stand in them. -/
theorem standsIn_of_ofText {text : List Char} (chosen : Quoting.ofText text = quoting)
    (literal : quoting.escapes = false) : StandsIn quoting text := by
  unfold Quoting.ofText at chosen
  dsimp only at chosen
  split at chosen
  case isTrue =>
    cases chosen
    cases literal
  case isFalse =>
  split at chosen
  case isTrue short =>
    cases chosen
    simp only [Bool.and_eq_true, beq_iff_eq, Bool.not_eq_true', List.all_eq_true, Bool.or_eq_true,
      List.contains_eq_mem, decide_eq_false_iff_not] at short
    obtain ⟨⟨clean, oneLine⟩, runs⟩ := short
    refine ⟨fun c member => .inl ((clean c member).resolve_right ?_), Nat.le_of_eq runs⟩
    rintro rfl
    exact oneLine member
  case isFalse =>
  split at chosen
  case isTrue =>
    cases chosen
    cases literal
  case isFalse =>
  split at chosen
  case isTrue long =>
    cases chosen
    simp only [Bool.and_eq_true, beq_iff_eq, List.all_eq_true, Bool.or_eq_true,
      decide_eq_true_eq] at long
    exact ⟨fun c member => (long.1 c member).imp_right fun same => ⟨same, rfl⟩, long.2⟩
  case isFalse =>
    cases chosen
    cases literal

theorem holds_ofText (text : List Char) : Holds (Quoting.ofText text) text :=
  standsIn_of_ofText rfl

theorem marks_of_short (short : quoting.long = false) : quoting.marks = [quoting.mark] := by
  rw [Quoting.marks, short]
  rfl

theorem marks_of_long (long : quoting.long = true) :
    quoting.marks = [quoting.mark, quoting.mark, quoting.mark] := by
  rw [Quoting.marks, long]
  rfl

section Chosen

variable {text rest : List Char} (holds : Holds quoting text)
  (ends : ∀ c ∈ rest.head?, c ≠ quoting.mark)

include holds ends

/-- What is written between the quotes does not look like quotes written three times. -/
theorem isPrefixOf_bodyText_of_short (short : quoting.long = false) :
    [quoting.mark, quoting.mark].isPrefixOf
      (bodyText quoting 0 text ++ quoting.marks ++ rest) = false := by
  have first := head?_bodyText_of_short short holds
  rw [marks_of_short short, ← Bool.not_eq_true, List.isPrefixOf_iff_prefix]
  cases written : bodyText quoting 0 text with
  | nil =>
      rw [List.nil_append, List.singleton_append, List.cons_prefix_cons]
      rintro ⟨_, others, whole⟩
      exact ends quoting.mark (by rw [← whole]; rfl) rfl
  | cons d others =>
      rw [List.cons_append, List.cons_append, List.cons_prefix_cons]
      exact fun same => first d (by rw [written]; rfl) same.1.symm

/-- A string is read after its opening quotes, if it starts on their line. -/
theorem map_readBody_bodyText {fuel : Nat}
    (enough : (bodyText quoting 0 text ++ quoting.marks ++ rest).length < fuel) :
    (readBody quoting fuel (bodyText quoting 0 text ++ quoting.marks ++ rest)).map
        (fun (content, rest) => (String.ofList content, rest)) =
      some (String.ofList text, rest) := by
  have length := length_le_bodyText quoting 0 text
  rw [List.length_append, List.length_append] at enough
  rw [readBody_bodyText holds ends (by omega)]
  rfl

/-- A short string is read after its opening quote. -/
theorem readQuoted_of_short (short : quoting.long = false) :
    readQuoted quoting.escapes true (bodyText quoting 0 text ++ quoting.marks ++ rest) =
      some (String.ofList text, rest) := by
  have single := isPrefixOf_bodyText_of_short holds ends short
  have same : quoting = ⟨quoting.escapes, false⟩ := by rw [← short]
  rw [same] at single
  rw [readQuoted, same, single, Bool.and_false, if_neg Bool.false_ne_true, ← same]
  exact map_readBody_bodyText holds ends (Nat.lt_succ_self _)

/-- A long string is read after the first of its opening quotes, and without what goes before its
content. -/
theorem readQuoted_of_long (long : quoting.long = true) {lead : List Char}
    (opening : afterOpening (lead ++ (bodyText quoting 0 text ++ quoting.marks ++ rest)) =
      bodyText quoting 0 text ++ quoting.marks ++ rest) :
    readQuoted quoting.escapes true ([quoting.mark, quoting.mark] ++
      (lead ++ (bodyText quoting 0 text ++ quoting.marks ++ rest))) =
        some (String.ofList text, rest) := by
  have same : quoting = ⟨quoting.escapes, true⟩ := by rw [← long]
  have mark : Quoting.mark ⟨quoting.escapes, false⟩ = quoting.mark := rfl
  have threefold : (true && [quoting.mark, quoting.mark].isPrefixOf ([quoting.mark, quoting.mark] ++
      (lead ++ (bodyText quoting 0 text ++ quoting.marks ++ rest)))) = true := by
    rw [Bool.true_and, List.isPrefixOf_iff_prefix]
    exact List.prefix_append _ _
  rw [readQuoted, mark, if_pos threefold]
  dsimp only
  rw [show 2 = [quoting.mark, quoting.mark].length from rfl, List.drop_left, opening, ← same]
  exact map_readBody_bodyText holds ends (Nat.lt_succ_self _)

end Chosen

/-- A string in quotes is read back after its first quote. -/
theorem readQuoted_quoted (text rest : List Char)
    (ends : ∀ c ∈ rest.head?, c ≠ '"' ∧ c ≠ '\'') :
    ∃ tail, quoted text ++ rest = (Quoting.ofText text).mark :: tail ∧
      readQuoted (Quoting.ofText text).escapes true tail = some (String.ofList text, rest) := by
  have holds := holds_ofText text
  rw [quoted]
  generalize Quoting.ofText text = quoting at holds
  have other : ∀ c ∈ rest.head?, c ≠ quoting.mark := by
    intro c member
    rw [Quoting.mark]
    split
    · exact (ends c member).1
    · exact (ends c member).2
  cases long : quoting.long with
  | false =>
      refine ⟨_, ?_, readQuoted_of_short holds other long⟩
      rw [marks_of_short long, Bool.false_and, if_neg Bool.false_ne_true]
      rfl
  | true =>
      rw [Bool.true_and]
      generalize lead? : (if text.contains '\n' then ['\n'] else []) = lead
      have opening : afterOpening (lead ++ (bodyText quoting 0 text ++ quoting.marks ++ rest)) =
          bodyText quoting 0 text ++ quoting.marks ++ rest := by
        rw [← lead?]
        split
        case isTrue => rfl
        case isFalse oneLine => exact afterOpening_bodyText holds (by simpa using oneLine) rest
      refine ⟨_, ?_, readQuoted_of_long holds other long opening⟩
      rw [marks_of_long long]
      simp only [List.append_assoc, List.cons_append, List.nil_append]

end SourceRecipe.Toml
