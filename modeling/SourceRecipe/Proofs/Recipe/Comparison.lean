import SourceRecipe.Build.Session
import SourceRecipe.Proofs.Sequence
import SourceRecipe.Proofs.Tree.Listing

/-!
# Comparing recipes with pinned trees

The comparison looks at the shapes first and at the revisions then.  The shape of a tree is what is
left of it when every branch is asked for at its tip, so to have the same shape is an equivalence;
and the two passes together say that a recipe is the one that asks for exactly the pinned revisions.
-/

namespace SourceRecipe

/-! ## Shapes -/

def Source.atTip (source : Source) : Source :=
  { source with specifier := .tip }

theorem Source.atTip_eq_iff {a b : Source} : a.atTip = b.atTip ↔ a.location = b.location := by
  rw [atTip, atTip, Source.mk.injEq]
  exact and_iff_left rfl

theorem Instructions.sameShape_iff {a b : Instructions Source} :
    a.sameShape b = true ↔ a.map Source.atTip = b.map Source.atTip := by
  induction a generalizing b with
  | done =>
      cases b with
      | done => exact iff_of_true rfl rfl
      | step => exact iff_of_false Bool.false_ne_true (fun impossible => by cases impossible)
  | step nickname directive branch inner later innerIh laterIh =>
      cases b with
      | done => exact iff_of_false Bool.false_ne_true (fun impossible => by cases impossible)
      | step nickname' directive' branch' inner' later' =>
          simp only [sameShape, map, Bool.and_eq_true, beq_iff_eq, decide_eq_true_eq, step.injEq,
            innerIh, laterIh, Source.atTip_eq_iff, and_assoc]

/-- Two trees have the same shape when nothing but specifiers tells them apart. -/
theorem Tree.sameShape_iff {a b : Tree Source} :
    a.sameShape b = true ↔ a.map Source.atTip = b.map Source.atTip := by
  rw [sameShape, Bool.and_eq_true, beq_iff_eq, Instructions.sameShape_iff, map, map, Tree.mk.injEq,
    Source.atTip_eq_iff]

theorem Tree.equivalence_sameShape : Equivalence fun a b : Tree Source => a.sameShape b = true where
  refl _ := sameShape_iff.mpr rfl
  symm same := sameShape_iff.mpr (sameShape_iff.mp same).symm
  trans first second :=
    sameShape_iff.mpr ((sameShape_iff.mp first).trans (sameShape_iff.mp second))

/-! ## Revisions -/

theorem Source.sameRevision_iff {a b : Source} (located : a.location = b.location) :
    a.sameRevision b = true ↔ a = b ∧ b.specifier.revision?.isSome := by
  rcases a with ⟨home, wanted⟩
  rcases b with ⟨_, given⟩
  cases located
  rw [sameRevision, Bool.and_eq_true, beq_iff_eq]
  cases wanted with
  | revision id =>
      cases given with
      | revision other => simp [Specifier.revision?]
      | tip | date | tag => simp [Specifier.revision?]
  | tip | date | tag =>
      constructor
      · rintro ⟨impossible, _⟩
        cases impossible
      · rintro ⟨same, some⟩
        cases same
        cases some

theorem Instructions.same_iff {a b : Instructions Source} :
    a.sameShape b = true ∧ a.sameRevisions b = true ↔
      a = b ∧ ∀ source ∈ b.branches, source.specifier.revision?.isSome := by
  induction a generalizing b with
  | done =>
      cases b with
      | done => simp [sameShape, sameRevisions, branches]
      | step => simp [sameShape]
  | step nickname directive branch inner later innerIh laterIh =>
      cases b with
      | done => simp [sameShape]
      | step nickname' directive' branch' inner' later' =>
          simp only [sameShape, sameRevisions, branches, Bool.and_eq_true, beq_iff_eq,
            decide_eq_true_eq, step.injEq, List.forall_mem_cons, List.forall_mem_append]
          constructor
          · rintro ⟨⟨⟨⟨⟨rfl, rfl⟩, located⟩, innerShape⟩, laterShape⟩, ⟨one, innerSame⟩, laterSame⟩
            obtain ⟨rfl, one⟩ := (Source.sameRevision_iff located).mp one
            obtain ⟨rfl, under⟩ := innerIh.mp ⟨innerShape, innerSame⟩
            obtain ⟨rfl, after⟩ := laterIh.mp ⟨laterShape, laterSame⟩
            exact ⟨⟨rfl, rfl, rfl, rfl, rfl⟩, one, under, after⟩
          · rintro ⟨⟨rfl, rfl, rfl, rfl, rfl⟩, one, under, after⟩
            have same := (Source.sameRevision_iff rfl).mpr ⟨rfl, one⟩
            obtain ⟨innerShape, innerSame⟩ := innerIh.mpr ⟨rfl, under⟩
            obtain ⟨laterShape, laterSame⟩ := laterIh.mpr ⟨rfl, after⟩
            exact ⟨⟨⟨⟨⟨rfl, rfl⟩, rfl⟩, innerShape⟩, laterShape⟩, ⟨same, innerSame⟩, laterSame⟩

/-- Trees of the same shape with the same revisions are equal, and ask for revisions only. -/
theorem Tree.same_iff {a b : Tree Source} :
    a.sameShape b = true ∧ a.sameRevisions b = true ↔
      a = b ∧ ∀ source ∈ b.branches, source.specifier.revision?.isSome := by
  rcases a with ⟨base, block⟩
  rcases b with ⟨base', block'⟩
  simp only [sameShape, sameRevisions, branches, Bool.and_eq_true, beq_iff_eq, Tree.mk.injEq,
    List.forall_mem_cons]
  constructor
  · rintro ⟨⟨located, shape⟩, one, same⟩
    obtain ⟨rfl, one⟩ := (Source.sameRevision_iff located).mp one
    obtain ⟨rfl, rest⟩ := Instructions.same_iff.mp ⟨shape, same⟩
    exact ⟨⟨rfl, rfl⟩, one, rest⟩
  · rintro ⟨⟨rfl, rfl⟩, one, rest⟩
    obtain ⟨shape, same⟩ := Instructions.same_iff.mpr ⟨rfl, rest⟩
    exact ⟨⟨rfl, shape⟩, (Source.sameRevision_iff rfl).mpr ⟨rfl, one⟩, same⟩

/-- Every branch of a pinned tree asks for a revision. -/
theorem Tree.revision?_exactly (pinned : Tree Pinned) :
    ∀ source ∈ pinned.exactly.branches, source.specifier.revision?.isSome := by
  rw [Tree.exactly, Tree.branches_map, List.forall_mem_map]
  exact fun branch _ => rfl

/-- The comparison of a recipe with a pinned tree finds whether it asks for exactly the pinned
revisions. -/
theorem Session.pinsSame_iff {recipe : Recipe} {pinned : Tree Pinned} :
    pinsSame recipe pinned = true ↔ recipe.tree = pinned.exactly := by
  rw [pinsSame, Bool.and_eq_true, Tree.same_iff]
  exact ⟨And.left, fun same => ⟨same, pinned.revision?_exactly⟩⟩

/-! ## Earlier manifests -/

/-- An earlier manifest pins the same revisions when it is there and holds a recipe for exactly
these. -/
theorem Session.unchangedSince_eq_true_iff {σ : Type} {earlier : Path} {pinned : Tree Pinned}
    {world after : World σ} :
    unchangedSince earlier pinned world = (.ok true, after) ↔
      after = world ∧ world.files.has earlier = true ∧
        ∃ recipe, Recipe.load world.files earlier = .ok recipe ∧ recipe.tree = pinned.exactly := by
  rw [unchangedSince, run_bind_eq_ok_iff]
  simp only [run_get_eq_ok_iff]
  constructor
  · rintro ⟨_, _, ⟨rfl, rfl⟩, rest⟩
    cases stands : world.files.has earlier with
    | false =>
        rw [stands] at rest
        cases rest
    | true =>
        simp only [stands, Bool.not_true, Bool.false_eq_true, if_false] at rest
        cases loads : Recipe.load world.files earlier with
        | error error =>
            rw [loads] at rest
            cases rest
        | ok recipe =>
            simp only [loads, run_pure_eq_ok_iff] at rest
            exact ⟨rest.2.symm, rfl, recipe, rfl, pinsSame_iff.mp rest.1⟩
  · rintro ⟨rfl, stands, recipe, loads, same⟩
    refine ⟨_, _, ⟨rfl, rfl⟩, ?_⟩
    simp only [stands, loads, Bool.not_true, Bool.false_eq_true, if_false, run_pure_eq_ok_iff]
    exact ⟨pinsSame_iff.mpr same, trivial⟩

/-- The two passes decide equality.  The first one finds trees that are the same but for their
specifiers, which is an equivalence.  Both together find equal trees, as long as the second tree
asks for revisions only.  So an earlier manifest counts as unchanged when the tree in it is the
pinned tree, and never when it is missing. -/
theorem Session.comparison_decides_equality (σ : Type) :
    (∀ a b : Tree Source, a.sameShape b = true ↔ a.map Source.atTip = b.map Source.atTip) ∧
    (Equivalence fun a b : Tree Source => a.sameShape b = true) ∧
    (∀ a b : Tree Source, a.sameShape b = true ∧ a.sameRevisions b = true ↔
      a = b ∧ ∀ source ∈ b.branches, source.specifier.revision?.isSome) ∧
    ∀ (earlier : Path) (pinned : Tree Pinned) (world after : World σ),
      unchangedSince earlier pinned world = (.ok true, after) ↔
        after = world ∧ world.files.has earlier = true ∧
          ∃ recipe, Recipe.load world.files earlier = .ok recipe ∧ recipe.tree = pinned.exactly :=
  ⟨fun _ _ => Tree.sameShape_iff, Tree.equivalence_sameShape, fun _ _ => Tree.same_iff,
    fun _ _ _ _ => unchangedSince_eq_true_iff⟩

end SourceRecipe
