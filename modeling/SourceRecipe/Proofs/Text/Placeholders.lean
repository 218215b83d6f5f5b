import Mathlib.Data.List.Basic
import SourceRecipe.Proofs.Text.Tokens
import SourceRecipe.Version

/-!
# Texts with placeholders

A text whose braces do not nest falls into characters that stand for themselves and placeholders,
each from an opening brace to the next closing one.  Replacing the text of a placeholder wherever
it occurs then replaces the placeholder and nothing else: no occurrence begins inside another
placeholder, and none reaches over the end of one.
-/

namespace SourceRecipe.Text

/-- A part of a text: a character that stands for itself, or a placeholder with what is between
its braces. -/
inductive Part where
  | letter (c : Char)
  | placeholder (inside : List Char)
  deriving DecidableEq

namespace Part

def text : Part → List Char
  | letter c => [c]
  | placeholder inside => '\x7b' :: (inside ++ ['\x7d'])

/-- Whether a part can be told from what is around it: braces stand nowhere but around
placeholders, closing braces on their own apart. -/
def IsClear : Part → Prop
  | letter c => c ≠ '\x7b'
  | placeholder inside => '\x7b' ∉ inside ∧ '\x7d' ∉ inside

end Part

def spell (parts : List Part) : List Char :=
  parts.flatMap Part.text

/-- The parts of what is left of a text, `opened` being what stands behind an opening brace that
is still to be closed. -/
def partsFrom : (opened : Option (List Char)) → List Char → List Part
  | none, [] => []
  | none, c :: rest =>
      if c = '\x7b' then partsFrom (some []) rest else .letter c :: partsFrom none rest
  | some inside, [] => ('\x7b' :: inside).map .letter
  | some inside, c :: rest =>
      if c = '\x7d' then .placeholder inside :: partsFrom none rest
      else partsFrom (some (inside ++ [c])) rest

def parts (text : List Char) : List Part :=
  partsFrom none text

/-- Whether the braces of a text do not nest: the next brace behind an opening one closes it. -/
def Unnested (text : List Char) : Prop :=
  ∀ before after, text = before ++ '\x7b' :: after →
    ∃ inside rest, after = inside ++ '\x7d' :: rest ∧ '\x7b' ∉ inside ∧ '\x7d' ∉ inside

/-! ## The parts of a text -/

theorem spell_cons (part : Part) (others : List Part) :
    spell (part :: others) = part.text ++ spell others :=
  List.flatMap_cons

theorem spell_placeholder (inside : List Char) (others : List Part) :
    spell (.placeholder inside :: others) = '\x7b' :: (inside ++ '\x7d' :: spell others) := by
  rw [spell_cons, Part.text, List.cons_append, List.append_assoc, List.singleton_append]

theorem Unnested.of_append {front text : List Char} (unnested : Unnested (front ++ text)) :
    Unnested text := by
  intro before after same
  subst same
  exact unnested (front ++ before) after (List.append_assoc _ _ _).symm

theorem partsFrom_inside {inside : List Char} (clear : '\x7d' ∉ inside) (front rest : List Char) :
    partsFrom (some front) (inside ++ '\x7d' :: rest) =
      .placeholder (front ++ inside) :: partsFrom none rest := by
  induction inside generalizing front with
  | nil => rw [List.nil_append, partsFrom, if_pos rfl, List.append_nil]
  | cons c others ih =>
      obtain ⟨differs, clear⟩ := List.ne_and_not_mem_of_not_mem_cons clear
      rw [List.cons_append, partsFrom, if_neg (Ne.symm differs), ih clear, List.append_assoc,
        List.singleton_append]

/-- Parts are found again in the text that they make. -/
theorem parts_spell {list : List Part} (clear : ∀ part ∈ list, part.IsClear) :
    parts (spell list) = list := by
  induction list with
  | nil => rfl
  | cons part others ih =>
      obtain ⟨first, later⟩ := List.forall_mem_cons.mp clear
      have rest := ih later
      rw [parts] at rest ⊢
      cases part with
      | letter c => rw [spell_cons, Part.text, List.singleton_append, partsFrom, if_neg first, rest]
      | placeholder inside =>
          rw [spell_placeholder, partsFrom, if_pos rfl, partsFrom_inside first.2, rest,
            List.nil_append]

/-- A text whose braces do not nest is made of parts. -/
theorem Unnested.exists_spell {text : List Char} (unnested : Unnested text) :
    ∃ list, (∀ part ∈ list, part.IsClear) ∧ spell list = text := by
  cases text with
  | nil => exact ⟨[], List.forall_mem_nil _, rfl⟩
  | cons c rest =>
      by_cases opens : c = '\x7b'
      · subst opens
        obtain ⟨inside, behind, rfl, clear⟩ := unnested [] rest rfl
        have shorter : behind.length < (inside ++ '\x7d' :: behind).length := by
          rw [List.length_append, List.length_cons]
          omega
        have left : Unnested behind := by
          refine @Unnested.of_append ('\x7b' :: (inside ++ ['\x7d'])) behind ?_
          rwa [List.cons_append, List.append_assoc, List.singleton_append]
        obtain ⟨list, clears, rfl⟩ := left.exists_spell
        exact ⟨.placeholder inside :: list, List.forall_mem_cons.mpr ⟨clear, clears⟩,
          spell_placeholder inside list⟩
      · have left : Unnested rest := @Unnested.of_append [c] rest unnested
        obtain ⟨list, clears, rfl⟩ := left.exists_spell
        exact ⟨.letter c :: list, List.forall_mem_cons.mpr ⟨opens, clears⟩, rfl⟩
termination_by text.length

/-- An opening brace stands nowhere in a part but at its beginning. -/
theorem Part.IsClear.text_eq {part : Part} (clear : part.IsClear) :
    ∃ c tail, part.text = c :: tail ∧ '\x7b' ∉ tail := by
  cases part with
  | letter c => exact ⟨c, [], rfl, List.not_mem_nil⟩
  | placeholder inside =>
      refine ⟨'\x7b', inside ++ ['\x7d'], rfl, fun member => ?_⟩
      rcases List.mem_append.mp member with within | closing
      · exact clear.1 within
      · exact absurd (List.mem_singleton.mp closing) (by decide)

/-- The braces in the text of clear parts do not nest. -/
theorem unnested_spell {list : List Part} (clear : ∀ part ∈ list, part.IsClear) :
    Unnested (spell list) := by
  induction list with
  | nil =>
      intro before after impossible
      exact absurd impossible.symm (List.append_ne_nil_of_right_ne_nil _ (List.cons_ne_nil _ _))
  | cons part others ih =>
      obtain ⟨first, later⟩ := List.forall_mem_cons.mp clear
      obtain ⟨c, tail, text, absent⟩ := first.text_eq
      intro before after same
      cases before with
      | nil =>
          cases part with
          | letter d =>
              rw [spell_cons] at same
              exact absurd (List.cons.inj same).1 first
          | placeholder inside =>
              rw [spell_placeholder] at same
              exact ⟨inside, spell others, (List.cons.inj same).2.symm, first⟩
      | cons d front =>
          rw [spell_cons, text] at same
          have split := (List.cons.inj same).2
          rcases List.append_eq_append_iff.mp split with ⟨further, rfl, rest⟩ | ⟨further, rfl, rest⟩
          · exact ih later further after rest
          · cases further with
            | nil => exact ih later [] after rest.symm
            | cons e further =>
                cases (List.cons.inj rest).1
                exact absurd (List.mem_append_right _ List.mem_cons_self) absent

theorem unnested_iff {text : List Char} :
    Unnested text ↔ spell (parts text) = text ∧ ∀ part ∈ parts text, part.IsClear := by
  constructor
  · intro unnested
    obtain ⟨list, clear, rfl⟩ := unnested.exists_spell
    rw [parts_spell clear]
    exact ⟨rfl, clear⟩
  · rintro ⟨spelled, clear⟩
    rw [← spelled]
    exact unnested_spell clear

instance (part : Part) : Decidable part.IsClear :=
  match part with
  | .letter c => inferInstanceAs (Decidable (c ≠ '\x7b'))
  | .placeholder inside => inferInstanceAs (Decidable ('\x7b' ∉ inside ∧ '\x7d' ∉ inside))

instance (text : List Char) : Decidable (Unnested text) :=
  decidable_of_iff _ unnested_iff.symm

/-! ## Looking for a placeholder -/

theorem append_cons_inj {separator : Char} {front other rest after : List Char}
    (clear : separator ∉ front) (otherClear : separator ∉ other)
    (same : front ++ separator :: rest = other ++ separator :: after) :
    front = other ∧ rest = after := by
  have cut := cutFirst?_append clear rest
  rw [same, cutFirst?_append otherClear after] at cut
  cases cut
  exact ⟨rfl, rfl⟩

/-- The text of a placeholder begins a text when the placeholder is its first part. -/
theorem isPrefixOf_spell_cons {inside : List Char} {part : Part} (named : '\x7d' ∉ inside)
    (clear : part.IsClear) (others : List Part) :
    (Part.placeholder inside).text.isPrefixOf (spell (part :: others)) =
      decide (part = .placeholder inside) := by
  rw [Bool.eq_iff_iff, List.isPrefixOf_iff_prefix, decide_eq_true_iff]
  constructor
  · rintro ⟨rest, same⟩
    cases part with
    | letter c =>
        rw [spell_cons] at same
        exact absurd (List.cons.inj same).1.symm clear
    | placeholder other =>
        rw [Part.text, spell_placeholder, List.cons_append, List.append_assoc,
          List.singleton_append] at same
        rw [(append_cons_inj named clear.2 (List.cons.inj same).2).1]
  · rintro rfl
    exact ⟨spell others, (spell_cons _ _).symm⟩

/-- A phrase is not found where none of the text has the character that it begins with. -/
theorem not_isPrefixOf_append {phrase front : List Char} {c d : Char}
    (leads : phrase.head? = some c) (absent : c ∉ d :: front) (rest : List Char) :
    ¬ phrase.isPrefixOf (d :: (front ++ rest)) = true := by
  rw [List.isPrefixOf_iff_prefix]
  rintro ⟨after, same⟩
  cases phrase with
  | nil => cases leads
  | cons e others =>
      cases leads
      exact absent (List.mem_cons.mpr (.inl (List.cons.inj same).1))

theorem occursIn_append_of_not_mem {phrase front : List Char} {c : Char}
    (leads : phrase.head? = some c) (absent : c ∉ front) (rest : List Char) :
    occursIn phrase (front ++ rest) = occursIn phrase rest := by
  induction front with
  | nil => rfl
  | cons d others ih =>
      rw [List.cons_append, occursIn, ih (List.not_mem_of_not_mem_cons absent),
        Bool.eq_false_iff.mpr (not_isPrefixOf_append leads absent rest), Bool.false_or]

theorem replaceFrom_append_of_not_mem {phrase front : List Char} {c : Char}
    (leads : phrase.head? = some c) (absent : c ∉ front) (substitute rest : List Char) :
    replaceFrom phrase substitute 0 (front ++ rest) =
      front ++ replaceFrom phrase substitute 0 rest := by
  induction front with
  | nil => rfl
  | cons d others ih =>
      rw [List.cons_append, replaceFrom, if_neg (not_isPrefixOf_append leads absent rest),
        ih (List.not_mem_of_not_mem_cons absent), List.cons_append]

/-- What is left of an occurrence is passed over. -/
theorem replaceFrom_length_append (phrase substitute front rest : List Char) :
    replaceFrom phrase substitute front.length (front ++ rest) =
      replaceFrom phrase substitute 0 rest := by
  induction front with
  | nil => rfl
  | cons c others ih => rw [List.cons_append, List.length_cons, replaceFrom, ih]

/-- The text of a placeholder occurs in a text when the placeholder is one of its parts. -/
theorem occursIn_spell {inside : List Char} {list : List Part} (named : '\x7d' ∉ inside)
    (clear : ∀ part ∈ list, part.IsClear) :
    occursIn (Part.placeholder inside).text (spell list) =
      decide (.placeholder inside ∈ list) := by
  induction list with
  | nil => rfl
  | cons part others ih =>
      obtain ⟨first, later⟩ := List.forall_mem_cons.mp clear
      obtain ⟨c, tail, text, absent⟩ := first.text_eq
      have here := isPrefixOf_spell_cons named first others
      rw [spell_cons, text, List.cons_append] at here ⊢
      rw [occursIn, here, occursIn_append_of_not_mem rfl absent, ih later, ← Bool.decide_or,
        decide_eq_decide, List.mem_cons, eq_comm]

/-! ## Replacing a placeholder -/

/-- Replacing a phrase that occurs takes away a character that it begins with. -/
theorem count_replace_lt_of_occursIn {c : Char} {phrase substitute text : List Char}
    (absent : substitute.count c = 0) (leads : phrase.head? = some c)
    (occurs : occursIn phrase text = true) :
    (replace phrase substitute text).count c < text.count c := by
  induction text with
  | nil =>
      cases phrase with
      | nil => cases leads
      | cons d others => cases occurs
  | cons d rest ih =>
      by_cases here : phrase.isPrefixOf (d :: rest) = true
      · obtain ⟨after, same⟩ := List.isPrefixOf_iff_prefix.mp here
        rw [← same]
        exact count_replace_lt c phrase substitute [] after absent List.not_mem_nil leads
      · rw [occursIn, Bool.eq_false_iff.mpr here, Bool.false_or] at occurs
        have fewer := ih occurs
        rw [replace] at fewer ⊢
        rw [replaceFrom, if_neg here, List.count_cons, List.count_cons]
        omega

def putIn (inside letters : List Char) (list : List Part) : List Part :=
  list.flatMap fun part => if part = .placeholder inside then letters.map .letter else [part]

theorem spell_letters (letters : List Char) : spell (letters.map .letter) = letters := by
  rw [spell, List.flatMap_map]
  exact List.flatMap_singleton' letters

theorem spell_append (front rest : List Part) :
    spell (front ++ rest) = spell front ++ spell rest :=
  List.flatMap_append

/-- Replacing the text of a placeholder replaces that placeholder. -/
theorem replace_spell {inside : List Char} {list : List Part} (named : '\x7d' ∉ inside)
    (letters : List Char) (clear : ∀ part ∈ list, part.IsClear) :
    replace (Part.placeholder inside).text letters (spell list) =
      spell (putIn inside letters list) := by
  rw [replace]
  induction list with
  | nil => rfl
  | cons part others ih =>
      obtain ⟨first, later⟩ := List.forall_mem_cons.mp clear
      obtain ⟨c, tail, text, absent⟩ := first.text_eq
      have here := isPrefixOf_spell_cons named first others
      rw [putIn, List.flatMap_cons, spell_append, ← putIn, ← ih later]
      rw [spell_cons, text, List.cons_append] at here ⊢
      rw [replaceFrom, here]
      by_cases same : part = .placeholder inside
      · subst same
        obtain ⟨rfl, rfl⟩ := List.cons.inj text
        rw [if_pos (decide_eq_true rfl), if_pos rfl, spell_letters]
        exact congrArg _ (replaceFrom_length_append _ _ _ _)
      · have single : spell [part] = c :: tail := by
          rw [spell_cons, text]
          exact List.append_nil _
        rw [if_neg (by rwa [decide_eq_true_iff]), if_neg same, single,
          replaceFrom_append_of_not_mem rfl absent, List.cons_append]

/-- Putting letters in takes a placeholder away, and leaves the others. -/
theorem placeholder_mem_putIn {inside letters other : List Char} {list : List Part} :
    .placeholder other ∈ putIn inside letters list ↔
      other ≠ inside ∧ .placeholder other ∈ list := by
  rw [putIn, List.mem_flatMap]
  constructor
  · rintro ⟨part, member, put⟩
    split at put
    · obtain ⟨letter, _, impossible⟩ := List.mem_map.mp put
      cases impossible
    · rename_i differs
      rw [← List.mem_singleton.mp put] at member differs
      exact ⟨fun same => differs (congrArg Part.placeholder same), member⟩
  · rintro ⟨differs, member⟩
    refine ⟨_, member, ?_⟩
    rw [if_neg fun same => differs (Part.placeholder.inj same)]
    exact List.mem_singleton_self _

/-- Letters that are not opening braces leave clear parts clear. -/
theorem isClear_of_mem_putIn {inside letters : List Char} {list : List Part}
    (absent : '\x7b' ∉ letters) (clear : ∀ part ∈ list, part.IsClear) :
    ∀ part ∈ putIn inside letters list, part.IsClear := by
  intro part member
  obtain ⟨whole, among, put⟩ := List.mem_flatMap.mp member
  split at put
  · obtain ⟨letter, written, rfl⟩ := List.mem_map.mp put
    rintro rfl
    exact absent written
  · rw [List.mem_singleton.mp put]
    exact clear whole among

/-! ## Replacing all placeholders at once -/

def Part.filled (numbers : List Char → Option Nat) : Part → List Char
  | letter c => [c]
  | placeholder inside =>
      match numbers inside with
      | some number => numeral number
      | none => (placeholder inside).text

def fill (numbers : List Char → Option Nat) (list : List Part) : List Char :=
  list.flatMap (Part.filled numbers)

/-- Putting the number of one placeholder in first does not change what becomes of the text. -/
theorem fill_putIn {numbers : List Char → Option Nat} {inside : List Char} {number : Nat}
    (numbered : numbers inside = some number) (list : List Part) :
    fill numbers (putIn inside (numeral number) list) = fill numbers list := by
  rw [fill, putIn, List.flatMap_assoc]
  refine List.flatMap_congr fun part _ => ?_
  split
  · rename_i same
    rw [same, Part.filled, numbered, List.flatMap_map]
    exact List.flatMap_singleton' _
  · exact List.append_nil _

/-- Without placeholders there is nothing to replace. -/
theorem fill_of_letters {list : List Part} (letters : ∀ inside, .placeholder inside ∉ list)
    (numbers : List Char → Option Nat) : fill numbers list = spell list := by
  refine List.flatMap_congr fun part member => ?_
  cases part with
  | letter c => rfl
  | placeholder inside => exact absurd member (letters inside)

end SourceRecipe.Text
