import Mathlib.Data.List.Basic
import SourceRecipe.Path
import SourceRecipe.Proofs.Text.Cuts

/-!
# Paths of names

A name is a text that stands for itself between slashes.  The path of a list of names has those
names as its parts, and put below another path it adds them to the parts of that one.
-/

namespace SourceRecipe.Path

open SourceRecipe.Text

/-- Whether a text names something inside a directory. -/
structure IsName (name : String) : Prop where
  part : part? name.toList = some (.name name)
  noSlash : '/' ∉ name.toList

theorem part?_eq_some_name_iff {piece : List Char} {name : String} :
    part? piece = some (.name name) ↔
      piece = name.toList ∧ piece ≠ [] ∧ piece ≠ ['.'] ∧ piece ≠ ['.', '.'] := by
  rw [part?]
  split
  · rename_i silent
    constructor
    · intro impossible
      cases impossible
    · rintro ⟨_, some, noPoint, _⟩
      exact absurd silent (not_or.mpr ⟨some, noPoint⟩)
  · rename_i silent
    obtain ⟨some, noPoint⟩ := not_or.mp silent
    split
    · rename_i up
      constructor
      · intro impossible
        cases impossible
      · rintro ⟨_, _, _, notUp⟩
        exact absurd up notUp
    · rename_i notUp
      rw [Option.some.injEq, PathPart.name.injEq, ← String.toList_inj, String.toList_ofList]
      exact ⟨fun same => ⟨same, some, noPoint, notUp⟩, fun means => means.1⟩

/-- The parts of a path are what its pieces mean, behind where it starts from. -/
theorem parts_eq (path : Path) :
    path.parts =
      (if path.isAbsolute then [.root]
        else if (pieces '/' path.chars).head? = some ['.'] then [.here] else []) ++
      (pieces '/' path.chars).filterMap part? := by
  rw [parts]
  cases path.isAbsolute with
  | true => rfl
  | false =>
      rw [if_neg Bool.false_ne_true, if_neg Bool.false_ne_true]
      split
      · rename_i others cut
        rw [cut]
        rfl
      · rename_i other
        rw [if_neg, List.nil_append]
        intro first
        obtain ⟨others, cut⟩ := List.head?_eq_some_iff.mp first
        exact other others cut

/-- A part that is a name can be put between slashes again. -/
theorem isName_of_mem_parts {path : Path} {name : String} (member : .name name ∈ path.parts) :
    IsName name := by
  rw [parts_eq, List.mem_append, List.mem_filterMap] at member
  rcases member with impossible | ⟨piece, among, means⟩
  · split at impossible
    · simp at impossible
    · split at impossible <;> simp at impossible
  · obtain ⟨rfl, _⟩ := part?_eq_some_name_iff.mp means
    exact ⟨means, not_mem_of_mem_pieces among⟩

theorem step?_of_isName {name : String} (proper : IsName name) :
    step? name.toList = some (.name name) := by
  have noPoint := (part?_eq_some_name_iff.mp proper.part).2.2.1
  rw [step?, if_neg noPoint, proper.part]

/-- A path that was put together with a name ends in it. -/
theorem getLast?_steps_join (base : Path) {name : String} (proper : IsName name) :
    (base.join ⟨name⟩).steps.getLast? = some (.name name) := by
  -- What stands before the last slash does not matter.
  have last {path : Path} (front : List (List Char))
      (cut : pieces '/' path.chars = front ++ [name.toList]) :
      path.steps.getLast? = some (.name name) := by
    rw [steps, cut, List.filterMap_append, List.filterMap_cons, step?_of_isName proper]
    split
    · rw [← List.cons_append, List.getLast?_append]
      rfl
    · rw [List.getLast?_append]
      rfl
  have behind (front : List Char) :
      pieces '/' (front ++ '/' :: name.toList) = pieces '/' front ++ [name.toList] := by
    rw [pieces_append_cons, pieces_of_clear proper.noSlash]
  rw [join]
  split
  · exact last [] (pieces_of_clear proper.noSlash)
  · split
    · rename_i joined
      rw [Bool.or_eq_true, String.isEmpty_iff] at joined
      rcases joined with empty | slash
      · rw [empty]
        exact last [] (by rw [chars, String.toList_append]; exact pieces_of_clear proper.noSlash)
      · obtain ⟨front, same⟩ := List.getLast?_eq_some_iff.mp (beq_iff_eq.mp slash)
        have whole : (base.text ++ name).toList = front ++ '/' :: name.toList := by
          rw [String.toList_append]
          change base.chars ++ _ = _
          rw [same, List.append_assoc]
          rfl
        exact last _ (by rw [chars, whole, behind])
    · have whole : (base.text ++ "/" ++ name).toList = base.chars ++ '/' :: name.toList := by
        rw [String.toList_append, String.toList_append, List.append_assoc]
        rfl
      exact last _ (by rw [chars, whole, behind])

section

variable {names : List String} (areNames : ∀ name ∈ names, IsName name)

include areNames

theorem filterMap_part?_names :
    (names.map String.toList).filterMap part? = names.map .name := by
  induction names with
  | nil => rfl
  | cons name others ih =>
      obtain ⟨first, rest⟩ := List.forall_mem_cons.mp areNames
      rw [List.map_cons, List.filterMap_cons, first.part, ih rest, List.map_cons]

theorem pieces_ofNames (some : names ≠ []) :
    pieces '/' (ofNames names).chars = names.map String.toList := by
  rw [chars, ofNames, String.toList_ofList]
  refine pieces_join (by simpa using some) ?_
  rw [List.forall_mem_map]
  exact fun name member => (areNames name member).noSlash

/-- What is put behind a slash does not change where a path starts from, and adds its own parts. -/
theorem parts_of_chars {base path : Path} {front : List Char} (some : names ≠ [])
    (whole : path.chars = front ++ '/' :: (ofNames names).chars)
    (starts : base.chars = front ++ ['/'] ∨ base.chars = front ∧ front ≠ []) :
    path.parts = base.parts ++ names.map .name := by
  have absolute : path.isAbsolute = base.isAbsolute := by
    rw [isAbsolute, isAbsolute, whole]
    rcases starts with same | ⟨same, longer⟩
    · rw [same]
      cases front <;> rfl
    · rw [same]
      cases front with
      | nil => exact absurd rfl longer
      | cons c others => rfl
  have cut : pieces '/' path.chars = pieces '/' front ++ names.map String.toList := by
    rw [whole, pieces_append_cons, pieces_ofNames areNames some]
  obtain ⟨silent, baseCut, none⟩ : ∃ silent, pieces '/' base.chars = pieces '/' front ++ silent ∧
      silent.filterMap part? = [] := by
    rcases starts with same | ⟨same, _⟩
    · exact ⟨[[]], by rw [same, pieces_append_cons, pieces], rfl⟩
    · exact ⟨[], by rw [same, List.append_nil], rfl⟩
  rw [parts_eq, parts_eq, absolute, cut, baseCut,
    List.head?_append_of_ne_nil _ (pieces_ne_nil '/' front),
    List.head?_append_of_ne_nil _ (pieces_ne_nil '/' front), List.filterMap_append,
    List.filterMap_append, none, List.append_nil, filterMap_part?_names areNames, List.append_assoc]

theorem isAbsolute_ofNames : (ofNames names).isAbsolute = false := by
  cases names with
  | nil => rfl
  | cons first others =>
      rw [isAbsolute, beq_eq_false_iff_ne]
      intro slash
      obtain ⟨rest, whole⟩ := List.head?_eq_some_iff.mp slash
      have cut := pieces_ofNames areNames (List.cons_ne_nil first others)
      rw [whole, pieces, if_pos rfl, List.map_cons, List.cons.injEq] at cut
      have proper := (areNames first List.mem_cons_self).part
      exact (part?_eq_some_name_iff.mp proper).2.1 cut.1.symm

/-- The parts of a path of names are the names. -/
theorem parts_ofNames : (ofNames names).parts = names.map .name := by
  cases names with
  | nil => rfl
  | cons first others =>
      have cut := pieces_ofNames areNames (List.cons_ne_nil first others)
      have proper := (areNames first List.mem_cons_self).part
      have noPoint := (part?_eq_some_name_iff.mp proper).2.2.1
      rw [parts_eq, isAbsolute_ofNames areNames, if_neg Bool.false_ne_true, cut, if_neg,
        List.nil_append, filterMap_part?_names areNames]
      rw [List.map_cons, List.head?_cons, Option.some.injEq]
      exact noPoint

/-- A path of names adds its names to what it is put below. -/
theorem parts_join_ofNames (root : Path) (some : names ≠ []) :
    (root.join (ofNames names)).parts = root.parts ++ names.map .name := by
  rw [join, isAbsolute_ofNames areNames, if_neg Bool.false_ne_true]
  by_cases empty : root.text = ""
  · have nothing : root = ⟨""⟩ := congrArg Path.mk empty
    subst nothing
    exact parts_ofNames areNames
  · have longer : root.chars ≠ [] := fun none => empty (String.toList_eq_nil_iff.mp none)
    by_cases slash : root.endsInSlash = true
    · obtain ⟨front, same⟩ := List.getLast?_eq_some_iff.mp (beq_iff_eq.mp slash)
      rw [if_pos (by rw [slash, Bool.or_true])]
      refine parts_of_chars areNames some ?_ (.inl same)
      rw [chars, String.toList_append]
      change root.chars ++ _ = _
      rw [same, List.append_assoc]
      rfl
    · have further : ¬ (root.text.isEmpty || root.endsInSlash) = true := by
        rw [Bool.or_eq_true, String.isEmpty_iff]
        exact not_or.mpr ⟨empty, slash⟩
      rw [if_neg further]
      refine parts_of_chars areNames some ?_ (.inr ⟨rfl, longer⟩)
      rw [chars, String.toList_append, String.toList_append, List.append_assoc]
      rfl

end

end SourceRecipe.Path
