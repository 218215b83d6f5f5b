import Mathlib.Data.String.Basic
import SourceRecipe.Depot.Files

/-!
# Merging files

A three-way merge is told path by path, missing files being contents like any other.  What several
sides have changed, no two of them at the same path, is gathered one side after the other, and it
does not matter in which order.
-/

namespace SourceRecipe

/-! ## Names in order -/

theorem mem_insertName_iff {name other : String} {names : List String} :
    other ∈ insertName name names ↔ other = name ∨ other ∈ names := by
  induction names with
  | nil => exact List.mem_singleton.trans (or_iff_left List.not_mem_nil).symm
  | cons first others ih =>
      rw [insertName]
      split
      · exact List.mem_cons
      · split
        · rename_i same
          rw [same]
          exact (or_iff_right_of_imp fun same => same ▸ List.mem_cons_self).symm
        · rw [List.mem_cons, ih, List.mem_cons, or_left_comm]

/-- Putting names in order loses none and adds none. -/
theorem mem_sortNames_iff {name : String} {names : List String} :
    name ∈ sortNames names ↔ name ∈ names := by
  induction names with
  | nil => exact Iff.rfl
  | cons first others ih =>
      rw [sortNames, List.foldr_cons, mem_insertName_iff, List.mem_cons, ← sortNames, ih]

/-- A name put in its place leaves the names in ascending order, each once. -/
theorem pairwise_insertName {name : String} {names : List String}
    (ascending : names.Pairwise (· < ·)) : (insertName name names).Pairwise (· < ·) := by
  induction names with
  | nil => exact List.pairwise_singleton _ name
  | cons first others ih =>
      obtain ⟨least, rest⟩ := List.pairwise_cons.mp ascending
      simp only [insertName]
      split
      case isTrue before =>
        refine List.pairwise_cons.mpr ⟨List.forall_mem_cons.mpr ⟨before, ?_⟩, ascending⟩
        exact fun other member => before.trans (least other member)
      case isFalse notBefore =>
        split
        case isTrue => exact ascending
        case isFalse differ =>
          refine List.pairwise_cons.mpr ⟨fun other member => ?_, ih rest⟩
          rcases mem_insertName_iff.mp member with rfl | member
          · exact lt_of_le_of_ne (not_lt.mp notBefore) (Ne.symm differ)
          · exact least other member

theorem pairwise_sortNames (names : List String) : (sortNames names).Pairwise (· < ·) := by
  induction names with
  | nil => exact .nil
  | cons first others ih => exact pairwise_insertName ih

/-- What a list of paths has under a path, when each has the text that is said of it. -/
theorem Dict.find?_filterMap {α : Type} (said : String → Option α) (path : String)
    (paths : List String) :
    Dict.find? path (paths.filterMap fun other => (said other).map (other, ·)) =
      if path ∈ paths then said path else none := by
  induction paths with
  | nil => rfl
  | cons first others ih =>
      rw [List.filterMap_cons]
      by_cases same : first = path
      · subst same
        rw [if_pos List.mem_cons_self]
        cases found : said first with
        | none => simpa [found] using ih
        | some text => exact if_pos rfl
      · have further : path ∈ first :: others ↔ path ∈ others :=
          List.mem_cons.trans (or_iff_right (Ne.symm same))
        simp only [further]
        cases said first with
        | none => exact ih
        | some text => exact (if_neg same).trans ih

namespace Files

variable {base ours theirs : Files} {path : String}

/-! ## One merge -/

theorem mem_allPaths_iff :
    path ∈ allPaths base ours theirs ↔
      ours.get? path ≠ none ∨ theirs.get? path ≠ none ∨ base.get? path ≠ none := by
  simp only [allPaths, mem_sortNames_iff, List.mem_append, Dict.mem_keys_iff, or_assoc,
    Option.isSome_iff_ne_none]

theorem mergePath_of_not_mem (absent : path ∉ allPaths base ours theirs) :
    mergePath base ours theirs path = some none := by
  simp only [mem_allPaths_iff, not_or, Decidable.not_not] at absent
  obtain ⟨inOurs, inTheirs, inBase⟩ := absent
  rw [mergePath, inOurs, inTheirs, inBase]
  rfl

/-- No path is in conflict exactly when each path has a content after the merge. -/
theorem conflicts_eq_nil_iff :
    conflicts base ours theirs = [] ↔ ∀ path, mergePath base ours theirs path ≠ none := by
  rw [conflicts, List.filter_eq_nil_iff]
  constructor
  · intro none path
    by_cases member : path ∈ allPaths base ours theirs
    · exact mt Option.isNone_iff_eq_none.mpr (none path member)
    · rw [mergePath_of_not_mem member]
      exact Option.some_ne_none _
  · intro settled path _ conflict
    exact settled path (Option.isNone_iff_eq_none.mp conflict)

/-- The merged files have the content that each path gets. -/
theorem get?_merged :
    (merged base ours theirs).get? path = (mergePath base ours theirs path).join := by
  refine (Dict.find?_filterMap _ path _).trans ?_
  by_cases member : path ∈ allPaths base ours theirs
  · exact if_pos member
  · rw [if_neg member, mergePath_of_not_mem member]
    rfl

/-- A path that one side has left alone gets the content of the other side. -/
theorem mergeContent_of_unchanged {old mine other : Option String} :
    (other = old → mergeContent old mine other = some mine) ∧
      (mine = old → mergeContent old mine other = some other) := by
  constructor
  · rintro rfl
    exact if_pos (.inr rfl)
  · rintro rfl
    by_cases same : mine = other
    · rw [mergeContent, if_pos (.inl same), same]
    · rw [mergeContent, if_neg (not_or.mpr ⟨same, same⟩), if_pos rfl]

/-- Whether no two of three sets of files have the same content at a path, no file being a content
like any other. -/
def IsDisputed (base ours theirs : Files) (path : String) : Prop :=
  ours.get? path ≠ theirs.get? path ∧ base.get? path ≠ theirs.get? path ∧
    base.get? path ≠ ours.get? path

theorem mergePath_eq_none_iff :
    mergePath base ours theirs path = none ↔ IsDisputed base ours theirs path := by
  unfold mergePath mergeContent IsDisputed
  split
  case isTrue settled =>
    refine iff_of_false (Option.some_ne_none _) fun disputed => ?_
    exact settled.elim disputed.1 disputed.2.1
  case isFalse open_ =>
    obtain ⟨differ, changed⟩ := not_or.mp open_
    split
    case isTrue unchanged =>
      exact iff_of_false (Option.some_ne_none _) fun disputed => disputed.2.2 unchanged
    case isFalse changedToo => exact iff_of_true rfl ⟨differ, changed, changedToo⟩

/-- The paths in conflict are those that the three sets of files dispute. -/
theorem mem_conflicts_iff : path ∈ conflicts base ours theirs ↔ IsDisputed base ours theirs path := by
  rw [conflicts, List.mem_filter, Option.isNone_iff_eq_none, mergePath_eq_none_iff]
  refine and_iff_right_of_imp fun disputed => ?_
  by_contra absent
  have settled := (mergePath_of_not_mem absent).symm.trans (mergePath_eq_none_iff.mpr disputed)
  exact Option.some_ne_none none settled

theorem pairwise_conflicts (base ours theirs : Files) :
    (conflicts base ours theirs).Pairwise (· < ·) :=
  (pairwise_sortNames _).filter _

/-- Whether some files have at each path what a merge of two sides is to have there: what one side
has left alone is as the other side has it, and what both have alike stays. -/
structure IsMerge (base ours theirs files : Files) : Prop where
  fromOurs : ∀ path, theirs.get? path = base.get? path → files.get? path = ours.get? path
  fromTheirs : ∀ path, ours.get? path = base.get? path → files.get? path = theirs.get? path
  shared : ∀ path, ours.get? path = theirs.get? path → files.get? path = ours.get? path

theorem isMerge_merged (base ours theirs : Files) :
    IsMerge base ours theirs (merged base ours theirs) := by
  constructor
  · intro path unchanged
    rw [get?_merged, mergePath, mergeContent_of_unchanged.1 unchanged, Option.join_some]
  · intro path unchanged
    rw [get?_merged, mergePath, mergeContent_of_unchanged.2 unchanged, Option.join_some]
  · intro path same
    rw [get?_merged, mergePath, mergeContent, if_pos (.inl same), Option.join_some]

/-! ## Merges of several sides -/

/-- Whether no path has changed on both of two sides. -/
def AreApart (base ours theirs : Files) : Prop :=
  ∀ path, ours.get? path = base.get? path ∨ theirs.get? path = base.get? path

theorem AreApart.symm (apart : AreApart base ours theirs) : AreApart base theirs ours :=
  fun path => (apart path).symm

/-- Files that are written at different paths are apart. -/
theorem areApart_put (base : Files) {first second : String} (differ : first ≠ second)
    (text other : String) : AreApart base (base.put first text) (base.put second other) := by
  intro path
  by_cases same : first = path
  · rw [Dict.get?_put base second, if_neg fun too => differ (same.trans too.symm)]
    exact .inr rfl
  · rw [Dict.get?_put base first, if_neg same]
    exact .inl rfl

/-- Whether some files have what each of some sides has changed, and what was there at first where
no side has changed it. -/
structure Gathers (base : Files) (sides : List Files) (files : Files) : Prop where
  kept : ∀ path, (∀ side ∈ sides, side.get? path = base.get? path) →
    files.get? path = base.get? path
  brought : ∀ side ∈ sides, ∀ path, side.get? path ≠ base.get? path →
    files.get? path = side.get? path

namespace Gathers

variable {sides others : List Files} {files : Files}

theorem nil (base : Files) : Gathers base [] base :=
  ⟨fun _ _ => rfl, fun _ impossible => (by cases impossible)⟩

/-- What is gathered depends on the sides alone, not on their order. -/
theorem congr (gathers : Gathers base sides files) (same : ∀ side, side ∈ others ↔ side ∈ sides) :
    Gathers base others files :=
  ⟨fun path unchanged => gathers.kept path fun side member =>
      unchanged side ((same side).mpr member),
    fun side member => gathers.brought side ((same side).mp member)⟩

/-- Files that gather the same sides have the same contents. -/
theorem get?_eq (gathers : Gathers base sides ours) (likewise : Gathers base sides theirs)
    (path : String) : ours.get? path = theirs.get? path := by
  by_cases unchanged : ∀ side ∈ sides, side.get? path = base.get? path
  · rw [gathers.kept path unchanged, likewise.kept path unchanged]
  · obtain ⟨side, differs⟩ := Classical.not_forall.mp unchanged
    obtain ⟨member, changed⟩ := Classical.not_imp.mp differs
    rw [gathers.brought side member path changed, likewise.brought side member path changed]

/-- A side that has changed nothing is gathered already. -/
theorem cons_of_unchanged (gathers : Gathers base sides files)
    (unchanged : ∀ path, theirs.get? path = base.get? path) :
    Gathers base (theirs :: sides) files := by
  refine ⟨fun path alike => gathers.kept path fun side member =>
    alike side (List.mem_cons_of_mem theirs member), ?_⟩
  exact List.forall_mem_cons.mpr
    ⟨fun path changed => absurd (unchanged path) changed, gathers.brought⟩

/-- A side that is apart from all that were gathered can be merged, and is gathered with them. -/
theorem merge (gathers : Gathers base sides ours)
    (apart : ∀ side ∈ sides, AreApart base side theirs) :
    conflicts base ours theirs = [] ∧ Gathers base (theirs :: sides) (merged base ours theirs) := by
  -- What theirs has changed, no side has, so it still is as it was at first.
  have either (path : String) :
      theirs.get? path = base.get? path ∨ ours.get? path = base.get? path := by
    by_cases unchanged : theirs.get? path = base.get? path
    · exact .inl unchanged
    · exact .inr (gathers.kept path fun side member =>
        (apart side member path).resolve_right unchanged)
  have content (path : String) :
      (theirs.get? path = base.get? path →
          mergePath base ours theirs path = some (ours.get? path)) ∧
        (theirs.get? path ≠ base.get? path →
          mergePath base ours theirs path = some (theirs.get? path)) :=
    ⟨mergeContent_of_unchanged.1, fun changed =>
      mergeContent_of_unchanged.2 ((either path).resolve_left changed)⟩
  refine ⟨conflicts_eq_nil_iff.mpr fun path => ?_, fun path alike => ?_,
    List.forall_mem_cons.mpr ⟨fun path changed => ?_, fun side member path changed => ?_⟩⟩
  · by_cases unchanged : theirs.get? path = base.get? path
    · rw [(content path).1 unchanged]
      exact Option.some_ne_none _
    · rw [(content path).2 unchanged]
      exact Option.some_ne_none _
  · obtain ⟨unchanged, alike⟩ := List.forall_mem_cons.mp alike
    rw [get?_merged, (content path).1 unchanged]
    exact gathers.kept path alike
  · rw [get?_merged, (content path).2 changed]
    rfl
  · have unchanged := (apart side member path).resolve_left changed
    rw [get?_merged, (content path).1 unchanged]
    exact gathers.brought side member path changed

end Gathers

end Files

end SourceRecipe
