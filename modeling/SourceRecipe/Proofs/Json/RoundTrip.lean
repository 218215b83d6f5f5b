import SourceRecipe.Json.Printing
import SourceRecipe.Json.Reading
import SourceRecipe.Proofs.Text.Padding
import SourceRecipe.Proofs.Text.Words

/-!
# JSON values read back

A value is read back from its text, however it is laid out, if its numbers are literals and its
strings have texts.  The reader takes what was written and stops where the writer stopped, since
what follows a value is white space or a mark that no value goes on with.
-/

namespace SourceRecipe.Json

open SourceRecipe.Text

/-! ## Strings -/

/-- What a reader makes of a character that was written inside a string. -/
def partOf (c : Char) : StringPart :=
  if c.toNat < 0x20 ∧ c ∉ ['\x08', '\x0c', '\n', '\r', '\t'] then .unit c.toNat else .char c

theorem hexValue?_hexDigit : ∀ n < 16, hexValue? (hexDigit n) = some n := by
  decide

theorem readHex4_hexPadded {n : Nat} (small : n < 65536) (rest : List Char) :
    readHex4 (hexPadded 4 n ++ rest) = some (n, rest) := by
  have digit (k : Nat) : hexValue? (hexDigit (k % 16)) = some (k % 16) :=
    hexValue?_hexDigit _ (Nat.mod_lt k (by decide))
  change readHex4 (hexDigit (n / 16 / 16 / 16 % 16) :: hexDigit (n / 16 / 16 % 16) ::
    hexDigit (n / 16 % 16) :: hexDigit (n % 16) :: rest) = _
  rw [readHex4]
  simp only [digit, Option.bind_eq_bind, Option.bind_some, Option.some.injEq, Prod.mk.injEq,
    and_true]
  omega

theorem readParts_escape {letter c : Char} (other : letter ≠ 'u')
    (named : escape? letter = some c) (text : List Char) (fuel : Nat) :
    readParts (fuel + 1) ('\\' :: letter :: text) =
      (readParts fuel text).map fun (parts, rest) => (.char c :: parts, rest) := by
  conv => lhs; unfold readParts
  split
  case h_1 same => cases same
  case h_2 same => cases same
  case h_3 same =>
    cases same
    exact absurd rfl other
  case h_4 same =>
    cases same
    rw [named]
    cases readParts fuel text <;> rfl
  case h_5 plain same =>
    cases same
    exact (plain letter text rfl rfl).elim

/-- A character that needs no escape is read as it is. -/
theorem readParts_plain {c : Char} (visible : 0x20 ≤ c.toNat) (quote : c ≠ '"') (slash : c ≠ '\\')
    (text : List Char) (fuel : Nat) :
    readParts (fuel + 1) (c :: text) =
      (readParts fuel text).map fun (parts, rest) => (.char c :: parts, rest) := by
  conv => lhs; unfold readParts
  split
  case h_1 same => cases same
  case h_2 same => exact absurd (List.cons.inj same).1 quote
  case h_3 same => exact absurd (List.cons.inj same).1 slash
  case h_4 same => exact absurd (List.cons.inj same).1 slash
  case h_5 same =>
    cases same
    rw [if_neg (Nat.not_lt.mpr visible)]
    cases readParts fuel text <;> rfl

theorem readParts_code {n : Nat} (small : n < 65536) (text : List Char) (fuel : Nat) :
    readParts (fuel + 1) ('\\' :: 'u' :: (hexPadded 4 n ++ text)) =
      (readParts fuel text).map fun (parts, rest) => (.unit n :: parts, rest) := by
  rw [readParts, readHex4_hexPadded small]
  simp only [Option.bind_eq_bind, Option.bind_some]
  cases readParts fuel text <;> rfl

/-- A character is written as an escape of one letter, as its code, or as itself. -/
theorem charText_cases (c : Char) :
    (∃ letter, letter ≠ 'u' ∧ escape? letter = some c ∧ charText c = ['\\', letter] ∧
      partOf c = .char c) ∨
    (c.toNat < 0x20 ∧ charText c = '\\' :: 'u' :: hexPadded 4 c.toNat ∧
      partOf c = .unit c.toNat) ∨
    (0x20 ≤ c.toNat ∧ c ≠ '"' ∧ c ≠ '\\' ∧ charText c = [c] ∧ partOf c = .char c) := by
  by_cases named : c ∈ ['"', '\\', '\x08', '\x0c', '\n', '\r', '\t']
  · simp only [List.mem_cons, List.not_mem_nil, or_false] at named
    rcases named with rfl | rfl | rfl | rfl | rfl | rfl | rfl
    · exact .inl ⟨'"', by decide, rfl, rfl, rfl⟩
    · exact .inl ⟨'\\', by decide, rfl, rfl, rfl⟩
    · exact .inl ⟨'b', by decide, rfl, rfl, rfl⟩
    · exact .inl ⟨'f', by decide, rfl, rfl, rfl⟩
    · exact .inl ⟨'n', by decide, rfl, rfl, rfl⟩
    · exact .inl ⟨'r', by decide, rfl, rfl, rfl⟩
    · exact .inl ⟨'t', by decide, rfl, rfl, rfl⟩
  · simp only [List.mem_cons, List.not_mem_nil, or_false, not_or] at named
    obtain ⟨quote, slash, backspace, feed, line, carriage, tab⟩ := named
    by_cases control : c.toNat < 0x20
    · refine .inr (.inl ⟨control, ?_, ?_⟩)
      · simp [charText, quote, slash, backspace, feed, line, carriage, tab, control]
      · simp [partOf, backspace, feed, line, carriage, tab, control]
    · refine .inr (.inr ⟨Nat.not_lt.mp control, quote, slash, ?_, ?_⟩)
      · simp [charText, quote, slash, backspace, feed, line, carriage, tab, control]
      · rw [partOf, if_neg fun escaped => control escaped.1]

/-- A character is written as a part of a string that is read as such. -/
theorem readParts_charText (c : Char) (text : List Char) (fuel : Nat) :
    readParts (fuel + 1) (charText c ++ text) =
      (readParts fuel text).map fun (parts, rest) => (partOf c :: parts, rest) := by
  rcases charText_cases c with ⟨letter, other, named, written, part⟩ | ⟨control, written, part⟩ |
    ⟨visible, quote, slash, written, part⟩
  · rw [written, part]
    exact readParts_escape other named text fuel
  · rw [written, part]
    exact readParts_code (Nat.lt_trans control (by decide)) text fuel
  · rw [written, part]
    exact readParts_plain visible quote slash text fuel

/-- The parts of a string that was written spell the string. -/
theorem spell_partOf_cons (c : Char) (parts : List StringPart) :
    spell (partOf c :: parts) = (spell parts).map (c :: ·) := by
  rw [partOf]
  split
  case isTrue control =>
    have low : ¬ (0xD800 ≤ c.toNat ∧ c.toNat < 0xDC00) := by omega
    have high : ¬ (0xDC00 ≤ c.toNat ∧ c.toNat < 0xE000) := by omega
    have any : ¬ (0xD800 ≤ c.toNat ∧ c.toNat < 0xE000) := by omega
    conv => lhs; unfold spell
    rcases parts with _ | ⟨_ | _, others⟩
    all_goals dsimp only
    · rw [if_neg any, Char.ofNat_toNat]
    · rw [if_neg any, Char.ofNat_toNat]
    · rw [if_neg low, if_neg high, Char.ofNat_toNat]
  case isFalse => rw [spell]

theorem spell_map_partOf (text : List Char) : spell (text.map partOf) = some text := by
  induction text with
  | nil => rfl
  | cons c rest ih => rw [List.map_cons, spell_partOf_cons, ih, Option.map_some]

theorem readParts_flatMap {text rest : List Char} {fuel : Nat} (enough : text.length < fuel) :
    readParts fuel (text.flatMap charText ++ '"' :: rest) = some (text.map partOf, rest) := by
  induction text generalizing fuel with
  | nil =>
      cases fuel with
      | zero => cases enough
      | succ fuel => rfl
  | cons c others ih =>
      cases fuel with
      | zero => cases enough
      | succ fuel =>
          rw [List.flatMap_cons, List.append_assoc, readParts_charText,
            ih (Nat.lt_of_succ_lt_succ enough), Option.map_some, List.map_cons]

theorem charText_ne_nil (c : Char) : charText c ≠ [] := by
  unfold charText
  repeat' split
  all_goals exact List.cons_ne_nil _ _

theorem length_le_flatMap_charText (text : List Char) :
    text.length ≤ (text.flatMap charText).length := by
  induction text with
  | nil => exact Nat.le_refl 0
  | cons c rest ih =>
      have some := List.length_pos_iff.mpr (charText_ne_nil c)
      rw [List.flatMap_cons, List.length_append, List.length_cons]
      omega

/-- A string in quotes is read back after its first quote. -/
theorem readString_quoted (text : String) (rest : List Char) :
    readString (text.toList.flatMap charText ++ '"' :: rest) = some (some text, rest) := by
  have length := length_le_flatMap_charText text.toList
  rw [readString, readParts_flatMap (by rw [List.length_append]; omega)]
  simp only [Option.bind_eq_bind, Option.bind_some, spell_map_partOf, Option.map_some,
    String.ofList_toList]

/-! ## Values that can be written -/

def EndsNumber (rest : List Char) : Prop :=
  ∀ c ∈ rest.head?, c.isDigit = false ∧ c ≠ '.' ∧ c ≠ 'e' ∧ c ≠ 'E'

structure IsLiteral (literal : List Char) : Prop where
  first : ∃ c others, literal = c :: others ∧ (c.isDigit = true ∨ c = '-')
  read : ∀ rest, EndsNumber rest → readNumber (literal ++ rest) = some (literal, rest)

mutual

/-- Whether the numbers in a value are literals and its strings have texts. -/
def IsWritable : Json → Prop
  | .null | .bool _ => True
  | .number literal => IsLiteral literal
  | .string text => text.isSome = true
  | .array items => AreWritable items
  | .object fields => FieldsAreWritable fields

def AreWritable : List Json → Prop
  | [] => True
  | item :: items => IsWritable item ∧ AreWritable items

def FieldsAreWritable : List (Option String × Json) → Prop
  | [] => True
  | (name, value) :: fields =>
      name.isSome = true ∧ IsWritable value ∧ FieldsAreWritable fields

end

/-- Whether a layout puts nothing but white space between the marks. -/
structure Layout.IsLoose (layout : Layout) : Prop where
  newline : ∀ level, ∀ c ∈ layout.newline level, isGap c = true
  colon : ∃ gap, layout.colon = ':' :: gap ∧ ∀ c ∈ gap, isGap c = true

theorem spread_isLoose : spread.IsLoose := by
  refine ⟨fun level => ?_, [' '], rfl, List.forall_mem_singleton.mpr rfl⟩
  refine List.forall_mem_cons.mpr ⟨rfl, fun c member => ?_⟩
  rw [List.eq_of_mem_replicate member]
  rfl

def EndsValue (rest : List Char) : Prop :=
  ∀ c ∈ rest.head?, isGap c = true ∨ c = ',' ∨ c = ']' ∨ c = '\x7d'

theorem EndsValue.number {rest : List Char} (ends : EndsValue rest) : EndsNumber rest := by
  intro c member
  have mark := ends c member
  simp only [isGap, Bool.or_eq_true, beq_iff_eq] at mark
  rcases mark with ((((rfl | rfl) | rfl) | rfl) | rfl | rfl | rfl) <;> decide

theorem endsValue_gap {gap rest : List Char} (blank : ∀ c ∈ gap, isGap c = true)
    (ends : EndsValue rest) : EndsValue (gap ++ rest) := by
  cases gap with
  | nil => exact ends
  | cons c others =>
      intro d member
      cases member
      exact .inl (blank c List.mem_cons_self)

theorem skipGap_append {gap : List Char} (blank : ∀ c ∈ gap, isGap c = true)
    (rest : List Char) : skipGap (gap ++ rest) = skipGap rest :=
  List.dropWhile_append_of_pos blank

theorem skipGap_cons {c : Char} (other : isGap c = false) (rest : List Char) :
    skipGap (c :: rest) = c :: rest :=
  List.dropWhile_cons_of_neg (by rw [other]; exact Bool.false_ne_true)

/-- White space before a value does not count. -/
theorem readValue_gap {gap : List Char} (blank : ∀ c ∈ gap, isGap c = true) (fuel : Nat)
    (text : List Char) : readValue fuel (gap ++ text) = readValue fuel text := by
  cases fuel with
  | zero => rfl
  | succ fuel => rw [readValue, readValue, skipGap_append blank]

theorem first_of_literal {c : Char} (first : c.isDigit = true ∨ c = '-') :
    isGap c = false ∧ c ≠ ']' ∧ c ≠ '\x7d' := by
  rcases first with digit | rfl
  · have other {d : Char} (mark : d.isDigit = false) : c ≠ d := by
      rintro rfl
      rw [digit] at mark
      cases mark
    simp only [isGap, Bool.or_eq_false_iff, beq_eq_false_iff_ne]
    exact ⟨⟨⟨⟨other rfl, other rfl⟩, other rfl⟩, other rfl⟩, other rfl, other rfl⟩
  · decide

/-- A value begins with neither white space nor a closing bracket. -/
theorem textAt_first (layout : Layout) (level : Nat) {value : Json} (writable : IsWritable value) :
    ∃ c others, textAt layout level value = c :: others ∧
      isGap c = false ∧ c ≠ ']' ∧ c ≠ '\x7d' := by
  cases value with
  | null => exact ⟨'n', _, by rw [textAt]; rfl, by decide⟩
  | bool value =>
      cases value with
      | true => exact ⟨'t', _, by rw [textAt]; rfl, by decide⟩
      | false => exact ⟨'f', _, by rw [textAt]; rfl, by decide⟩
  | number literal =>
      rw [IsWritable] at writable
      obtain ⟨c, others, written, first⟩ := writable.first
      exact ⟨c, others, by rw [textAt, written], first_of_literal first⟩
  | string text => exact ⟨'"', _, by rw [textAt]; rfl, by decide⟩
  | array items =>
      cases items with
      | nil => exact ⟨'[', _, by rw [textAt], by decide⟩
      | cons item items => exact ⟨'[', _, by rw [textAt]; rfl, by decide⟩
  | object fields =>
      rcases fields with _ | ⟨⟨name, value⟩, fields⟩
      · exact ⟨'\x7b', _, by rw [textAt], by decide⟩
      · exact ⟨'\x7b', _, by rw [textAt]; rfl, by decide⟩

/-! ## One step of the reader -/

section Steps

variable {fuel : Nat} {text rest tail : List Char}

/-- The literal of a number is read as a number. -/
theorem readValue_literal {literal : List Char} (isLiteral : IsLiteral literal)
    (ends : EndsNumber rest) :
    readValue (fuel + 1) (literal ++ rest) = some (.number literal, rest) := by
  obtain ⟨c, others, written, first⟩ := isLiteral.first
  have gap : skipGap (literal ++ rest) = literal ++ rest := by
    rw [written]
    exact skipGap_cons (first_of_literal first).1 _
  have other {d : Char} {tail : List Char} (mark : ¬ (d.isDigit = true ∨ d = '-')) :
      literal ++ rest ≠ d :: tail := by
    rw [written]
    exact fun same => mark ((List.cons.inj same).1 ▸ first)
  rw [readValue, gap]
  split
  case h_1 same => exact absurd same (other (by decide))
  case h_2 same => exact absurd same (other (by decide))
  case h_3 same => exact absurd same (other (by decide))
  case h_4 same => exact absurd same (other (by decide))
  case h_5 same => exact absurd same (other (by decide))
  case h_6 same => exact absurd same (other (by decide))
  case h_7 =>
    rw [isLiteral.read rest ends]
    rfl

theorem readValue_string (text : String) (rest : List Char) :
    readValue (fuel + 1) (quoted (some text) ++ rest) = some (.string (some text), rest) := by
  have whole : quoted (some text) ++ rest =
      '"' :: (text.toList.flatMap charText ++ '"' :: rest) := by
    rw [quoted]
    simp
  have gap : skipGap ('"' :: (text.toList.flatMap charText ++ '"' :: rest)) =
      '"' :: (text.toList.flatMap charText ++ '"' :: rest) := skipGap_cons (by decide) _
  rw [whole]
  simp only [readValue, gap, readString_quoted]
  rfl

theorem readValue_array (some : ∀ tail, skipGap text ≠ ']' :: tail) :
    readValue (fuel + 1) ('[' :: text) =
      (readItems fuel text).map fun (items, rest) => (.array items, rest) := by
  have gap : skipGap ('[' :: text) = '[' :: text := skipGap_cons (by decide) _
  simp only [readValue, gap]
  cases readItems fuel text <;> rfl

theorem readValue_object (some : ∀ tail, skipGap text ≠ '\x7d' :: tail) :
    readValue (fuel + 1) ('\x7b' :: text) =
      (readFields fuel text).map fun (fields, rest) => (.object fields, rest) := by
  have gap : skipGap ('\x7b' :: text) = '\x7b' :: text := skipGap_cons (by decide) _
  simp only [readValue, gap]
  cases readFields fuel text <;> rfl

variable {item : Json}

theorem readItems_cons (read : readValue fuel text = some (item, rest))
    (next : skipGap rest = ',' :: tail) :
    readItems (fuel + 1) text =
      (readItems fuel tail).map fun (items, rest) => (item :: items, rest) := by
  rw [readItems, read]
  simp only [Option.bind_eq_bind, Option.bind_some, next]
  cases readItems fuel tail <;> rfl

theorem readItems_last (read : readValue fuel text = some (item, rest))
    (next : skipGap rest = ']' :: tail) : readItems (fuel + 1) text = some ([item], tail) := by
  rw [readItems, read]
  simp only [Option.bind_eq_bind, Option.bind_some, next]

variable {name : Option String} {colon value : List Char}

theorem readFields_cons (first : skipGap text = '"' :: rest)
    (named : readString rest = some (name, colon)) (mark : skipGap colon = ':' :: value)
    {after : List Char} (read : readValue fuel value = some (item, after))
    (next : skipGap after = ',' :: tail) :
    readFields (fuel + 1) text =
      (readFields fuel tail).map fun (fields, rest) => ((name, item) :: fields, rest) := by
  rw [readFields, first]
  simp only [Option.bind_eq_bind, Option.bind_some, named, mark, read, next]
  cases readFields fuel tail <;> rfl

theorem readFields_last (first : skipGap text = '"' :: rest)
    (named : readString rest = some (name, colon)) (mark : skipGap colon = ':' :: value)
    {after : List Char} (read : readValue fuel value = some (item, after))
    (next : skipGap after = '\x7d' :: tail) :
    readFields (fuel + 1) text = some ([(name, item)], tail) := by
  rw [readFields, first]
  simp only [Option.bind_eq_bind, Option.bind_some, named, mark, read, next]

end Steps

/-! ## Whole values -/

section Values

variable {layout : Layout} (loose : layout.IsLoose)

/-- What follows an item of an array and the items after it. -/
theorem endsValue_itemsText {level : Nat} {gap rest : List Char} (items : List Json)
    (blank : ∀ c ∈ gap, isGap c = true) :
    EndsValue (itemsText layout level items ++ (gap ++ ']' :: rest)) := by
  cases items with
  | nil =>
      rw [itemsText, List.nil_append]
      apply endsValue_gap blank
      intro c member
      cases member
      exact .inr (.inr (.inl rfl))
  | cons item items =>
      rw [itemsText]
      intro c member
      cases member
      exact .inr (.inl rfl)

theorem endsValue_fieldsText {level : Nat} {gap rest : List Char}
    (fields : List (Option String × Json)) (blank : ∀ c ∈ gap, isGap c = true) :
    EndsValue (fieldsText layout level fields ++ (gap ++ '\x7d' :: rest)) := by
  rcases fields with _ | ⟨⟨name, value⟩, fields⟩
  · rw [fieldsText, List.nil_append]
    apply endsValue_gap blank
    intro c member
    cases member
    exact .inr (.inr (.inr rfl))
  · rw [fieldsText]
    intro c member
    cases member
    exact .inr (.inl rfl)

include loose

mutual

/-- A value is read back from its text. -/
theorem readValue_textAt (level : Nat) {rest : List Char} (ends : EndsValue rest) (fuel : Nat)
    (value : Json) (writable : IsWritable value)
    (enough : 2 * (textAt layout level value).length ≤ fuel) :
    readValue fuel (textAt layout level value ++ rest) = some (value, rest) := by
  obtain ⟨c, others, first, _⟩ := textAt_first layout level writable
  cases fuel with
  | zero =>
      rw [first] at enough
      cases enough
  | succ fuel =>
  match value with
  | .null => rw [textAt]; rfl
  | .bool true => rw [textAt]; rfl
  | .bool false => rw [textAt]; rfl
  | .number literal =>
      rw [textAt]
      rw [IsWritable] at writable
      exact readValue_literal writable ends.number
  | .string none =>
      rw [IsWritable] at writable
      cases writable
  | .string (some text) =>
      rw [textAt]
      exact readValue_string text rest
  | .array [] => rw [textAt]; rfl
  | .array (item :: items) =>
      rw [IsWritable, AreWritable] at writable
      rw [textAt] at enough ⊢
      have whole : '[' :: layout.newline (level + 1) ++ textAt layout (level + 1) item ++
          itemsText layout (level + 1) items ++ layout.newline level ++ [']'] ++ rest =
            '[' :: (layout.newline (level + 1) ++ textAt layout (level + 1) item ++
              itemsText layout (level + 1) items ++ (layout.newline level ++ ']' :: rest)) := by
        simp
      have read := readItems_itemsText (level + 1) rest fuel
        (loose.newline (level + 1)) (loose.newline level) item items writable.1 writable.2 (by
          simp only [List.length_append, List.length_cons] at enough
          omega)
      rw [whole, readValue_array, read]
      · rfl
      · intro tail same
        obtain ⟨d, more, begins, gap, bracket, _⟩ := textAt_first layout (level + 1)
          writable.1
        rw [begins, List.append_assoc, List.append_assoc, skipGap_append (loose.newline _),
          List.cons_append, skipGap_cons gap] at same
        exact bracket (List.cons.inj same).1
  | .object [] => rw [textAt]; rfl
  | .object ((name, value) :: fields) =>
      rw [IsWritable, FieldsAreWritable] at writable
      rw [textAt] at enough ⊢
      have whole : '\x7b' :: layout.newline (level + 1) ++ quoted name ++ layout.colon ++
          textAt layout (level + 1) value ++ fieldsText layout (level + 1) fields ++
            layout.newline level ++ ['\x7d'] ++ rest =
              '\x7b' :: (layout.newline (level + 1) ++ quoted name ++ layout.colon ++
                textAt layout (level + 1) value ++ fieldsText layout (level + 1) fields ++
                  (layout.newline level ++ '\x7d' :: rest)) := by
        simp
      have read := readFields_fieldsText (level + 1) rest fuel
        (loose.newline (level + 1)) (loose.newline level) name value fields writable.1
        writable.2.1 writable.2.2 (by
          simp only [List.length_append, List.length_cons] at enough
          omega)
      rw [whole, readValue_object, read]
      · rfl
      · intro tail same
        simp only [List.append_assoc] at same
        rw [skipGap_append (loose.newline _), quoted, List.cons_append, List.cons_append,
          skipGap_cons (by decide)] at same
        exact absurd (List.cons.inj same).1 (by decide)
termination_by fuel

/-- The items of an array are read up to its end. -/
theorem readItems_itemsText (level : Nat) {before gap : List Char} (rest : List Char) (fuel : Nat)
    (blankBefore : ∀ c ∈ before, isGap c = true) (blank : ∀ c ∈ gap, isGap c = true)
    (item : Json) (items : List Json) (writable : IsWritable item) (all : AreWritable items)
    (enough : 2 * ((textAt layout level item).length +
      (itemsText layout level items).length) < fuel) :
    readItems fuel (before ++ textAt layout level item ++ itemsText layout level items ++
      (gap ++ ']' :: rest)) = some (item :: items, rest) := by
  cases fuel with
  | zero => cases enough
  | succ fuel =>
  have read : readValue fuel (before ++ textAt layout level item ++
      itemsText layout level items ++ (gap ++ ']' :: rest)) =
        some (item, itemsText layout level items ++ (gap ++ ']' :: rest)) := by
    rw [List.append_assoc, List.append_assoc, readValue_gap blankBefore]
    exact readValue_textAt level (endsValue_itemsText items blank) fuel item writable (by omega)
  match items with
  | [] =>
      refine readItems_last read ?_
      rw [itemsText, List.nil_append, skipGap_append blank, skipGap_cons (by decide)]
  | next :: more =>
      rw [AreWritable] at all
      rw [itemsText] at enough read ⊢
      have others := readItems_itemsText level rest fuel
        (loose.newline level) blank next more all.1 all.2 (by
          simp only [List.length_append, List.length_cons] at enough
          omega)
      simp only [List.cons_append] at read ⊢
      rw [readItems_cons read (skipGap_cons (by decide) _), others]
      rfl
termination_by fuel

/-- The fields of an object are read up to its end. -/
theorem readFields_fieldsText (level : Nat) {before gap : List Char} (rest : List Char)
    (fuel : Nat) (blankBefore : ∀ c ∈ before, isGap c = true)
    (blank : ∀ c ∈ gap, isGap c = true)
    (name : Option String) (value : Json) (fields : List (Option String × Json))
    (named : name.isSome = true) (writable : IsWritable value) (all : FieldsAreWritable fields)
    (enough : 2 * ((textAt layout level value).length +
      (fieldsText layout level fields).length) < fuel) :
    readFields fuel (before ++ quoted name ++ layout.colon ++ textAt layout level value ++
      fieldsText layout level fields ++ (gap ++ '\x7d' :: rest)) =
        some ((name, value) :: fields, rest) := by
  cases fuel with
  | zero => cases enough
  | succ fuel =>
  obtain ⟨text, rfl⟩ := Option.isSome_iff_exists.mp named
  obtain ⟨space, colon, blankSpace⟩ := loose.colon
  have first : skipGap (before ++ quoted (some text) ++ layout.colon ++
      textAt layout level value ++ fieldsText layout level fields ++ (gap ++ '\x7d' :: rest)) =
        '"' :: (text.toList.flatMap charText ++ '"' :: (':' :: (space ++
          (textAt layout level value ++
            (fieldsText layout level fields ++ (gap ++ '\x7d' :: rest)))))) := by
    simp only [List.append_assoc, colon]
    rw [skipGap_append blankBefore, quoted, List.cons_append, List.cons_append,
      skipGap_cons (by decide)]
    simp
  have read : readValue fuel (space ++ (textAt layout level value ++
      (fieldsText layout level fields ++ (gap ++ '\x7d' :: rest)))) =
        some (value, fieldsText layout level fields ++ (gap ++ '\x7d' :: rest)) := by
    rw [readValue_gap blankSpace]
    exact readValue_textAt level (endsValue_fieldsText fields blank) fuel value writable (by omega)
  match fields with
  | [] =>
      refine readFields_last first (readString_quoted text _) (skipGap_cons (by decide) _) read ?_
      rw [fieldsText, List.nil_append, skipGap_append blank, skipGap_cons (by decide)]
  | (other, next) :: more =>
      rw [FieldsAreWritable] at all
      rw [fieldsText] at enough first read ⊢
      have others := readFields_fieldsText level rest fuel
        (loose.newline level) blank other next more all.1 all.2.1 all.2.2 (by
          simp only [List.length_append, List.length_cons] at enough
          omega)
      simp only [List.cons_append] at first read ⊢
      rw [readFields_cons first (readString_quoted text _) (skipGap_cons (by decide) _) read
        (skipGap_cons (by decide) _), others]
      rfl
termination_by fuel

end

/-- The text of a value holds the value. -/
theorem read_textAt (level : Nat) {value : Json} (writable : IsWritable value) :
    read (textAt layout level value) = some value := by
  have nothing : EndsValue [] := by simp [EndsValue]
  have whole := readValue_textAt loose level nothing (2 * (textAt layout level value).length + 2)
    value writable (Nat.le_add_right _ 2)
  rw [List.append_nil] at whole
  rw [read, whole]
  rfl

end Values

end SourceRecipe.Json
