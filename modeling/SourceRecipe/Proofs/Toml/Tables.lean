import SourceRecipe.Proofs.Toml.Document
import SourceRecipe.Toml.Decoding

/-!
# Documents of tables

A document that sets fields and then opens tables and sets fields in them is the table of those
fields, in the order of its lines, as long as no name is used twice in one table.
-/

namespace SourceRecipe.Toml

def names {α : Type} (fields : List (String × α)) : List String :=
  fields.map Prod.fst

/-! ## Single lines -/

section Change

variable {name : String} {update : Option Toml → Option Toml} {fields : List (String × Toml)}
  (free : name ∉ names fields)

include free

/-- A name that is free comes last. -/
theorem change_of_free {value : Toml} (made : update none = some value) :
    change name update fields = some (fields ++ [(name, value)]) := by
  induction fields with
  | nil => rw [change, made]; rfl
  | cons field others ih =>
      obtain ⟨differs, rest⟩ := List.ne_and_not_mem_of_not_mem_cons free
      rw [change, if_neg (Ne.symm differs), ih rest]
      rfl

/-- The last field is changed in its place. -/
theorem change_last (value : Toml) :
    change name update (fields ++ [(name, value)]) =
      (update (some value)).map fun value => fields ++ [(name, value)] := by
  induction fields with
  | nil => rw [List.nil_append, change, if_pos rfl]; rfl
  | cons field others ih =>
      obtain ⟨differs, rest⟩ := List.ne_and_not_mem_of_not_mem_cons free
      rw [List.cons_append, change, if_neg (Ne.symm differs), ih rest]
      cases update (some value) <;> rfl

/-- A value is added to a table with a header at a name that is free. -/
theorem addKey_of_free (value : Toml) :
    addKey [] name value (.table .header fields) =
      some (.table .header (fields ++ [(name, value)])) := by
  have other : TableKind.header = .dotted ↔ ([] : List String) ≠ [] := by simp
  rw [addKey, changeAt, if_pos other, change_of_free free rfl]
  rfl

/-- A header with a name that is free opens a table. -/
theorem openAt_of_free :
    openAt false [] name (.table .header fields) =
      some (.table .header (fields ++ [(name, .table .header [])])) := by
  have opened : change name openTable fields = some (fields ++ [(name, .table .header [])]) :=
    change_of_free free rfl
  rw [openAt, changeAt, if_neg Bool.false_ne_true, opened]
  rfl

end Change

/-! ## Blocks of lines -/

def fieldLines (fields : List (String × Toml)) : List Line :=
  fields.map fun (name, value) => .field [] name value

def tableLines (tables : List (String × List (String × Toml))) : List Line :=
  tables.flatMap fun (name, fields) => .header false [] name :: fieldLines fields

def headed (tables : List (String × List (String × Toml))) : List (String × Toml) :=
  tables.map fun (name, fields) => (name, .table .header fields)

/-- A field that may be absent has no line where it is. -/
theorem SpellsLines.optional {α : Type} {name : String} (bare : IsBareName name)
    {text : α → List Char} {value : α → Toml} {present : Option α}
    (spelled : ∀ a ∈ present, IsValueText (text a) (value a)) {rest : List Char}
    {lines : List Line} (others : SpellsLines rest lines) :
    SpellsLines ((present.elim [] fun a => fieldLine name (text a)) ++ rest)
      (fieldLines (present.elim [] fun a => [(name, value a)]) ++ lines) := by
  cases present with
  | none => exact others
  | some a => exact others.field bare (spelled a rfl)

theorem free_of_nodup {before : List (String × Toml)} {name : String} {others : List String}
    (distinct : (names before ++ name :: others).Nodup) : name ∉ names before :=
  fun member => (List.nodup_append.mp distinct).2.2 name member name List.mem_cons_self rfl

theorem names_append_cons {before : List (String × Toml)} (name : String) (value : Toml)
    (others : List String) :
    names (before ++ [(name, value)]) ++ others = names before ++ name :: others := by
  simp [names]

/-- Fields before the first header are added to the document. -/
theorem addLines_fieldLines (before fields : List (String × Toml)) (lines : List Line)
    (distinct : (names before ++ names fields).Nodup) :
    addLines none (.table .header before) (fieldLines fields ++ lines) =
      addLines none (.table .header (before ++ fields)) lines := by
  induction fields generalizing before with
  | nil => rw [List.append_nil]; rfl
  | cons field others ih =>
      obtain ⟨name, value⟩ := field
      have added : addKey [] name value (.table .header before) = _ :=
        addKey_of_free (free_of_nodup distinct) value
      have next := ih (before ++ [(name, value)]) (by rw [names_append_cons]; exact distinct)
      rw [List.append_assoc] at next
      change addLines none _ (.field [] name value :: (fieldLines others ++ lines)) = _
      rw [addLines, addBelow, added]
      exact next

/-- Fields below a header are added to its table. -/
theorem addLines_below {others : List (String × Toml)} (before fields : List (String × Toml))
    {name : String} (lines : List Line) (free : name ∉ names others)
    (distinct : (names before ++ names fields).Nodup) :
    addLines (some ([], name)) (.table .header (others ++ [(name, .table .header before)]))
        (fieldLines fields ++ lines) =
      addLines (some ([], name))
        (.table .header (others ++ [(name, .table .header (before ++ fields))])) lines := by
  induction fields generalizing before with
  | nil => rw [List.append_nil]; rfl
  | cons field rest ih =>
      obtain ⟨inner, value⟩ := field
      have added : addKey [] inner value (.table .header before) = _ :=
        addKey_of_free (free_of_nodup distinct) value
      have next := ih (before ++ [(inner, value)]) (by rw [names_append_cons]; exact distinct)
      rw [List.append_assoc] at next
      change addLines _ _ (.field [] inner value :: (fieldLines rest ++ lines)) = _
      rw [addLines, addBelow, changeAt, change_last free]
      dsimp only
      rw [added]
      exact next

theorem addLines_tableLines (section? : Option (List String × String))
    (before : List (String × Toml)) {tables : List (String × List (String × Toml))}
    (distinct : (names before ++ names tables).Nodup)
    (inside : ∀ table ∈ tables, (names table.2).Nodup) :
    addLines section? (.table .header before) (tableLines tables) =
      some (.table .header (before ++ headed tables)) := by
  induction tables generalizing before section? with
  | nil =>
      rw [headed, List.map_nil, List.append_nil]
      cases section? <;> rfl
  | cons table others ih =>
      obtain ⟨name, fields⟩ := table
      obtain ⟨first, rest⟩ := List.forall_mem_cons.mp inside
      have free := free_of_nodup distinct
      have below := addLines_below [] fields (tableLines others) free first
      have next := ih (some ([], name)) (before ++ [(name, .table .header fields)])
        (by rw [names_append_cons]; exact distinct) rest
      change addLines section? _
        (.header false [] name :: (fieldLines fields ++ tableLines others)) = _
      rw [addLines, openAt_of_free free]
      simp only [Option.bind_eq_bind, Option.bind_some]
      rw [below, List.nil_append, next, List.append_assoc]
      rfl

/-- A document of fields and tables is read back. -/
theorem read_of_spellsLines {text : List Char} {fields : List (String × Toml)}
    {tables : List (String × List (String × Toml))}
    (spelled : SpellsLines text (fieldLines fields ++ tableLines tables))
    (first : text.head? ≠ some '\ufeff') (distinct : (names fields ++ names tables).Nodup)
    (inside : ∀ table ∈ tables, (names table.2).Nodup) :
    read text = some (.table .header (fields ++ headed tables)) := by
  have unmarked : dropEncodingMark text = text := by
    unfold dropEncodingMark
    split
    case h_1 => exact absurd rfl first
    case h_2 => rfl
  have front := addLines_fieldLines [] fields (tableLines tables)
    (List.nodup_append.mp distinct).1
  rw [read, unmarked, spelled _ (Nat.lt_succ_self _)]
  simp only [Option.bind_eq_bind, Option.bind_some]
  rw [empty, front, List.nil_append, addLines_tableLines none fields distinct inside]

/-! ## Structures -/

/-- A structure has the fields of its table, if it names all of them. -/
theorem fields?_table {known : List String} {kind : TableKind} {fields : List (String × Toml)}
    (named : ∀ name ∈ names fields, name ∈ known) :
    format.fields? known (.table kind fields) = some fields := by
  change fields? known (.table kind fields) = some fields
  have nothing : fields.filter (fun field => !known.contains field.1) = [] := by
    rw [List.filter_eq_nil_iff]
    intro field member
    rw [List.contains_iff_mem.mpr (named field.1 (List.mem_map_of_mem member))]
    exact Bool.false_ne_true
  rw [fields?, nothing]
  rfl

end SourceRecipe.Toml
