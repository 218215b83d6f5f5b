import SourceRecipe.Json.Decoding
import SourceRecipe.Proofs.Json.Literals

/-!
# Structures in JSON

An object of named fields is read as the structure that it was written for when the structure names
each of them once, whatever their order is, and each field then has the value it was written with.
-/

namespace SourceRecipe.Json

open SourceRecipe.Text

/-! ## What can be written -/

theorem isWritable_ofText (text : String) : IsWritable (ofText text) := by
  rw [ofText, IsWritable]
  rfl

theorem isWritable_null : IsWritable null := by
  rw [IsWritable]
  trivial

theorem isWritable_ofText? (text : Option String) : IsWritable (ofText? text) := by
  cases text with
  | none => exact isWritable_null
  | some text => exact isWritable_ofText text

theorem isWritable_bool (value : Bool) : IsWritable (.bool value) := by
  rw [IsWritable]
  trivial

/-- An object can be written if its values can. -/
theorem isWritable_ofFields {fields : List (String × Json)}
    (writable : ∀ field ∈ fields, IsWritable field.2) : IsWritable (ofFields fields) := by
  rw [ofFields, IsWritable]
  induction fields with
  | nil => rw [List.map_nil, FieldsAreWritable]; trivial
  | cons field others ih =>
      obtain ⟨first, rest⟩ := List.forall_mem_cons.mp writable
      rw [List.map_cons, FieldsAreWritable]
      exact ⟨rfl, first, ih rest⟩

/-- An array can be written if its items can. -/
theorem isWritable_array {items : List Json} (writable : ∀ item ∈ items, IsWritable item) :
    IsWritable (.array items) := by
  rw [IsWritable]
  induction items with
  | nil => rw [AreWritable]; trivial
  | cons item others ih =>
      obtain ⟨first, rest⟩ := List.forall_mem_cons.mp writable
      rw [AreWritable]
      exact ⟨first, ih rest⟩

/-! ## What is read -/

section Fields

variable {fields : List (String × Json)} {known : List String}

/-- A field with a name of its own is found by it. -/
theorem lookup_of_mem {name : String} {value : Json} (distinct : (fields.map Prod.fst).Nodup)
    (member : (name, value) ∈ fields) : fields.lookup name = some value := by
  obtain ⟨before, after, rfl⟩ := List.append_of_mem member
  rw [List.lookup_eq_some_iff]
  refine ⟨before, after, rfl, fun field earlier => ?_⟩
  rw [List.map_append, List.map_cons, List.nodup_append] at distinct
  rw [bne_iff_ne]
  rintro rfl
  exact distinct.2.2 _ (List.mem_map_of_mem earlier) _ List.mem_cons_self rfl

theorem lookup_of_not_mem {name : String} (absent : name ∉ fields.map Prod.fst) :
    fields.lookup name = none := by
  rw [List.lookup_eq_none_iff]
  intro field member
  rw [bne_iff_ne]
  rintro rfl
  exact absent (List.mem_map_of_mem member)

/-- A structure has the fields of its object, if it names all of them once. -/
theorem namedFields_ofFields (named : ∀ field ∈ fields, field.1 ∈ known)
    (distinct : (fields.map Prod.fst).Nodup) :
    namedFields known (fields.map fun (name, value) => (some name, value)) = some fields := by
  induction fields with
  | nil => rfl
  | cons field others ih =>
      obtain ⟨name, value⟩ := field
      obtain ⟨first, rest⟩ := List.forall_mem_cons.mp named
      obtain ⟨free, distinctRest⟩ := List.nodup_cons.mp distinct
      rw [List.map_cons, namedFields, ih rest distinctRest]
      simp only [Option.bind_eq_bind, Option.bind_some]
      rw [if_pos first, lookup_of_not_mem free, Option.isSome_none, if_neg Bool.false_ne_true]

theorem record?_ofFields {levels left : Nat} (enters : enter? levels = some left)
    (named : ∀ field ∈ fields, field.1 ∈ known) (distinct : (fields.map Prod.fst).Nodup) :
    (ofFields fields).record? levels known = some (left, ⟨fields, false⟩) := by
  rw [ofFields, record?, enters, namedFields_ofFields named distinct]
  rfl

variable {α : Type} {name : String} {value : Json} {inOrder : Bool}

theorem required_of_mem (distinct : (fields.map Prod.fst).Nodup)
    (member : (name, value) ∈ fields) (decode : Json → Option α) :
    Record.required ⟨fields, inOrder⟩ name decode = decode value := by
  rw [Record.required, lookup_of_mem distinct member, Option.bind_some]

theorem withDefault_of_mem (distinct : (fields.map Prod.fst).Nodup)
    (member : (name, value) ∈ fields) (default : α) (decode : Json → Option α) :
    Record.withDefault ⟨fields, inOrder⟩ name default decode = decode value := by
  rw [Record.withDefault, lookup_of_mem distinct member]

theorem withDefault_of_not_mem (absent : name ∉ fields.map Prod.fst) (default : α)
    (decode : Json → Option α) :
    Record.withDefault ⟨fields, inOrder⟩ name default decode = some default := by
  rw [Record.withDefault, lookup_of_not_mem absent]

end Fields

@[simp]
theorem nullable_text?_ofText (text : String) :
    nullable text? (ofText text) = some (some text) :=
  rfl

theorem natBelow?_ofNat {bound n : ℕ} (below : n < bound) :
    natBelow? bound (ofNat n) = some n := by
  have digits : (numeral n).all Char.isDigit = true :=
    List.all_eq_true.mpr fun _ => isDigit_of_mem_numeral
  change natBelow? bound (.number (numeral n)) = some n
  rw [natBelow?, digits, digitsValue_numeral, decide_eq_true below]
  rfl

section

variable {α β : Type} {f : α → Option β} {values : List α}

theorem mapM_cons_eq_some_iff {value : α} {results : List β} :
    (value :: values).mapM f = some results ↔
      ∃ first rest, f value = some first ∧ values.mapM f = some rest ∧ results = first :: rest := by
  simp only [List.mapM_cons, Option.bind_eq_bind, Option.bind_eq_some_iff, Option.pure_def,
    Option.some_inj, exists_and_left, @eq_comm _ _ results]

theorem exists_of_mem_mapM {results : List β} (made : values.mapM f = some results) {result : β}
    (member : result ∈ results) : ∃ value ∈ values, f value = some result := by
  induction values generalizing results with
  | nil =>
      cases made
      cases member
  | cons value others ih =>
      obtain ⟨first, rest, one, all, rfl⟩ := mapM_cons_eq_some_iff.mp made
      rcases List.mem_cons.mp member with rfl | later
      · exact ⟨value, List.mem_cons_self, one⟩
      · obtain ⟨other, listed, same⟩ := ih all later
        exact ⟨other, List.mem_cons_of_mem value listed, same⟩

/-- The items of an array are read when each of them is read back. -/
theorem mapM_reads_back {g : β → Option α} {results : List β} (made : values.mapM f = some results)
    (reads : ∀ value ∈ values, ∀ result, f value = some result → g result = some value) :
    results.mapM g = some values := by
  induction values generalizing results with
  | nil =>
      cases made
      rfl
  | cons value others ih =>
      obtain ⟨first, rest, one, all, rfl⟩ := mapM_cons_eq_some_iff.mp made
      obtain ⟨front, later⟩ := List.forall_mem_cons.mp reads
      exact mapM_cons_eq_some_iff.mpr ⟨value, others, front first one, ih all later, rfl⟩

theorem mapM_eq_none_iff : values.mapM f = none ↔ ∃ value ∈ values, f value = none := by
  induction values with
  | nil =>
      constructor
      · intro impossible
        cases impossible
      · rintro ⟨_, impossible, _⟩
        cases impossible
  | cons value others ih =>
      rw [List.mapM_cons]
      cases first : f value with
      | none => exact ⟨fun _ => ⟨value, List.mem_cons_self, first⟩, fun _ => rfl⟩
      | some result =>
          simp only [Option.bind_eq_bind, Option.bind_some, Option.pure_def, Option.bind_eq_none_iff,
            reduceCtorEq, imp_false, List.exists_mem_cons_iff, first, false_or]
          rw [← ih]
          exact Option.eq_none_iff_forall_ne_some.symm

end

end SourceRecipe.Json
