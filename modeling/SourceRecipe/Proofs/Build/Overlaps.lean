import SourceRecipe.Git.Backend
import SourceRecipe.Git.Playback
import SourceRecipe.Proofs.Build.Layout

/-!
# Trees around trees

A checkout wants a place where nothing stands.  A plan makes no tree twice, but it may make one
around a tree that stands already: the location of an earlier nest may have led past the place, to a
tree further down.  That is the only way in which it comes about.
-/

namespace SourceRecipe

/-- Whether an operation is a nest that passes a place on the way from the tree around it to its
own: a location of several names leads from above the place to below it. -/
def Operation.Passes (operation : Operation) (place : List PathPart) : Prop :=
  ∃ nickname location around first further,
    operation.action = .nest nickname location ∧
      Plan.locationNames location = .ok (first ++ further) ∧ first ≠ [] ∧ further ≠ [] ∧
      place = (around ++ first).map .name ∧
      operation.target.parts = (around ++ (first ++ further)).map .name

namespace Plan

/-- Whether a place is that of a tree, or was passed on the way to one. -/
def IsReached (done : List Operation) (place : List PathPart) : Prop :=
  IsMade done place ∨ ∃ nest ∈ done, nest.Passes place

/-- Whether an operation works at a place that was reached one tree after the other. -/
def Steps (done : List Operation) (operation : Operation) : Prop :=
  ∀ place, place <+: operation.target.parts → place ≠ operation.target.parts →
    IsReached (done ++ [operation]) place

section

variable {done later : List Operation} {operation : Operation} {place : List PathPart}

theorem IsReached.append (reached : IsReached done place) (more : List Operation) :
    IsReached (done ++ more) place := by
  rcases reached with made | ⟨nest, member, passes⟩
  · exact .inl (isMade_append.mpr (.inl made))
  · exact .inr ⟨nest, List.mem_append_left _ member, passes⟩

/-- What holds of each operation in view of those before it holds of any of them in view of some that
stand before it. -/
theorem InTurn.exists_of_mem {Holds : List Operation → Operation → Prop}
    (inTurn : InTurn Holds [] done) (member : operation ∈ done) :
    ∃ front back, done = front ++ operation :: back ∧ Holds front operation := by
  obtain ⟨front, back, rfl⟩ := List.append_of_mem member
  exact ⟨front, back, rfl, inTurn.at_middle⟩

/-- An operation that passes a place works below it. -/
theorem prefix_of_passes (passes : operation.Passes place) : place <+: operation.target.parts := by
  obtain ⟨_, _, around, first, further, _, _, _, _, rfl, target⟩ := passes
  rw [target, ← List.append_assoc, @List.map_append _ _ _ (around ++ first)]
  exact List.prefix_append _ _

/-- Every operation that fits works where one of those up to it has made a tree. -/
theorem isMade_of_mem (fits : InTurn Fits [] done) (member : operation ∈ done) :
    IsMade done operation.target.parts := by
  by_cases makes : operation.Makes
  · exact ⟨operation, member, makes, rfl⟩
  · obtain ⟨front, back, rfl, fit⟩ := fits.exists_of_mem member
    exact isMade_append.mpr (.inl (not_not.mp (mt fit.mpr makes)))

/-- A place above a tree is above the tree around it, or on the way between the two. -/
theorem above_or_between {here names : TreePath} (above : place <+: (here ++ names).map .name) :
    place <+: here.map .name ∨
      ∃ first further, names = first ++ further ∧ first ≠ [] ∧ place = (here ++ first).map .name := by
  obtain ⟨rest, whole⟩ := above
  rw [List.map_append] at whole
  rcases List.append_eq_append_iff.mp whole with ⟨more, above, _⟩ | ⟨more, rfl, split⟩
  · exact .inl ⟨more, above.symm⟩
  · obtain ⟨first, further, rfl, rfl, rfl⟩ := List.map_eq_append_iff.mp split
    by_cases parent : first = []
    · subst parent
      rw [List.map_nil, List.append_nil]
      exact .inl List.prefix_rfl
    · exact .inr ⟨first, further, rfl, parent, List.map_append.symm⟩

end

/-- The operations of a block step from tree to tree where every place above its tree is reached. -/
theorem ofBlock_steps {block : Instructions Pinned} {ancestors : List (String × String)}
    {here : TreePath} {depth : Nat} {nests final : Nests} {done operations : List Operation}
    (planned : ofBlock ancestors here depth nests block = .ok (operations, final))
    (inside : ∀ name ∈ here, Path.IsName name)
    (around : ∀ place, place <+: here.map .name → IsReached done place) :
    InTurn Steps done operations := by
  induction block generalizing ancestors here depth nests final done operations with
  | done =>
      cases planned
      exact trivial
  | step nickname directive branch inner later innerIh laterIh =>
      have further (more : List Operation) :
          ∀ place, place <+: here.map .name → IsReached (done ++ more) place :=
        fun place above => (around place above).append more
      cases directive with
      | merge =>
          obtain ⟨under, middle, after, within, behind, rfl⟩ := ofBlock_merge_eq_ok_iff.mp planned
          have target : (mergeOperation ancestors here depth nickname branch).target.parts =
            here.map .name := Path.parts_ofNames inside
          refine ⟨fun place above _ => ?_, inTurn_append.mpr ⟨innerIh within inside (further _), ?_⟩⟩
          · rw [target] at above
            exact further _ place above
          · rw [List.append_assoc]
            exact laterIh behind inside (further _)
      | nest location =>
          obtain ⟨names, under, middle, after, spelled, _, within, behind, rfl⟩ :=
            ofBlock_nest_eq_ok_iff.mp planned
          have inner := List.forall_mem_append.mpr ⟨inside, (locationNames_eq_ok spelled).2⟩
          have makes : (nestOperation (here ++ names) depth nickname location branch).Makes :=
            fun impossible => by cases impossible
          have target : (nestOperation (here ++ names) depth nickname location branch).target.parts =
            (here ++ names).map .name := Path.parts_ofNames inner
          have steps : Steps done (nestOperation (here ++ names) depth nickname location branch) := by
            intro place above differs
            rw [target] at above differs
            rcases above_or_between above with above | ⟨first, last, rfl, some, rfl⟩
            · exact further _ place above
            · refine .inr ⟨_, List.mem_append_right _ List.mem_cons_self, nickname, location, here,
                first, last, rfl, spelled, some, ?_, rfl, target⟩
              rintro rfl
              exact differs (by rw [List.append_nil])
          refine ⟨steps, inTurn_append.mpr ⟨innerIh within inner fun place above => ?_, ?_⟩⟩
          · by_cases same : place = (here ++ names).map .name
            · exact .inl (isMade_concat.mpr (.inr ⟨makes, target.trans same.symm⟩))
            · exact steps place (by rw [target]; exact above) (by rw [target]; exact same)
          · rw [List.append_assoc]
            exact laterIh behind inside (further _)

/-- The operations of a plan step from tree to tree. -/
theorem ofTree_steps {tree : Tree Pinned} {operations : List Operation}
    (planned : ofTree tree = .ok operations) : InTurn Steps [] operations := by
  obtain ⟨others, nests, block, rfl⟩ := ofTree_eq_ok_iff.mp planned
  have root : (rootOperation tree.base).Makes := fun impossible => by cases impossible
  refine ⟨fun place above differs => absurd (List.prefix_nil.mp above) differs,
    ofBlock_steps block (List.forall_mem_nil _) fun place above => ?_⟩
  rw [List.prefix_nil.mp above]
  exact .inl (isMade_concat.mpr (.inr ⟨root, rfl⟩))

/-- Where an operation of a plan makes a tree, a tree stands already at the place or below it exactly
when the location of an earlier nest has led past the place.  So it never does where all locations
are single names. -/
theorem stands_below_iff_passed {tree : Tree Pinned} {operations done later : List Operation}
    {operation : Operation} (planned : ofTree tree = .ok operations)
    (plan : operations = done ++ operation :: later) (makes : operation.Makes) :
    (∃ earlier ∈ done, operation.target.parts <+: earlier.target.parts) ↔
      ∃ earlier ∈ done, earlier.Passes operation.target.parts := by
  obtain ⟨fits, _⟩ := ofTree_fits planned
  have steps := ofTree_steps planned
  subst plan
  have new := fits.at_middle.mp makes
  constructor
  · rintro ⟨earlier, member, below⟩
    by_cases same : operation.target.parts = earlier.target.parts
    · rw [same] at new
      exact absurd (isMade_of_mem (inTurn_append.mp fits).1 member) new
    · obtain ⟨front, back, rfl, step⟩ := (inTurn_append.mp steps).1.exists_of_mem member
      rw [List.append_cons] at new ⊢
      rcases step _ below same with made | ⟨nest, among, passes⟩
      · exact absurd (isMade_append.mpr (.inl made)) new
      · exact ⟨nest, List.mem_append_left _ among, passes⟩
  · rintro ⟨earlier, member, passes⟩
    exact ⟨earlier, member, prefix_of_passes passes⟩

/-- Two nests, the first of which passes the place of the second. -/
def passingTree : Tree Pinned :=
  ⟨⟨⟨"base", .tip⟩, "b1"⟩, .step "deep" (.nest "x/y") ⟨⟨"docs", .tip⟩, "d1"⟩ .done
    (.step "wide" (.nest "./x/") ⟨⟨"art", .tip⟩, "a1"⟩ .done .done)⟩

def passingOperations : List Operation :=
  [⟨.checkout, "base", "b1", ⟨""⟩, 0⟩, ⟨.nest "deep" "x/y", "docs", "d1", ⟨"x/y"⟩, 0⟩,
    ⟨.nest "wide" "./x/", "art", "a1", ⟨"x"⟩, 0⟩]

theorem stands_below_iff_passed_passingTree :
    ofTree passingTree = .ok passingOperations ∧
      (∃ earlier ∈ passingOperations.take 2, [.name "x"] <+: earlier.target.parts) ∧
      ¬ ∃ earlier ∈ passingOperations.take 1, [.name "x", .name "y"] <+: earlier.target.parts := by
  have planned : ofTree passingTree = .ok passingOperations := by decide +kernel
  have wide : (Operation.mk (.nest "wide" "./x/") "art" "a1" ⟨"x"⟩ 0).target.parts = [.name "x"] := by
    decide +kernel
  have deep : (Operation.mk (.nest "deep" "x/y") "docs" "d1" ⟨"x/y"⟩ 0).target.parts =
      [.name "x", .name "y"] := by
    decide +kernel
  have root : (Operation.mk .checkout "base" "b1" ⟨""⟩ 0).target.parts = [] := by decide +kernel
  have below := @stands_below_iff_passed _ _ (passingOperations.take 2) []
    ⟨.nest "wide" "./x/", "art", "a1", ⟨"x"⟩, 0⟩ planned rfl (by decide)
  have above := @stands_below_iff_passed _ _ (passingOperations.take 1) (passingOperations.drop 2)
    ⟨.nest "deep" "x/y", "docs", "d1", ⟨"x/y"⟩, 0⟩ planned rfl (by decide)
  rw [wide] at below
  rw [deep] at above
  refine ⟨planned, below.mpr ⟨_, List.mem_cons_of_mem _ List.mem_cons_self, ?_⟩, ?_⟩
  · exact ⟨"deep", "x/y", [], ["x"], ["y"], rfl, by decide +kernel, List.cons_ne_nil _ _,
      List.cons_ne_nil _ _, rfl, deep⟩
  · rw [above]
    rintro ⟨earlier, member, _, _, _, _, _, impossible, _⟩
    cases List.mem_singleton.mp member
    cases impossible

/-- A plan may make a tree around one that stands: the second nest comes to a directory that the
first one has made, and is refused there. -/
theorem stands_below_of_passingTree :
    ofTree passingTree = .ok passingOperations ∧
      (∃ nest ∈ passingOperations[2]?, nest.action.kind = .nest ∧
        ∃ earlier ∈ passingOperations.take 2, nest.target.parts <+: earlier.target.parts ∧
          nest.target.parts ≠ earlier.target.parts) ∧
      (Git.checkout Git.Playback.answer ⟨⟨"git"⟩, ⟨"cache"⟩, "", ""⟩ ⟨0, none⟩ "art" "a1" ⟨"out/x"⟩
        ⟨.initial ⟨[], []⟩, .initial, ((FileWork.makeDirectories ⟨"out/x/y"⟩).run .empty).2, []⟩).1 =
          .error (.other "out/x exists and is not empty") := by
  refine ⟨by decide +kernel, ⟨_, rfl, rfl, _, List.mem_cons_of_mem _ List.mem_cons_self, ?_⟩, ?_⟩
  · decide +kernel
  · decide +kernel

end Plan

end SourceRecipe
