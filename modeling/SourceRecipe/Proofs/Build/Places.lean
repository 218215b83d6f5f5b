import SourceRecipe.Proofs.Build.Changes
import SourceRecipe.Proofs.Depot.Reached

/-!
# The trees that a run finds

A run of a plan below a root where nothing stands makes each of its trees once and finds every tree
that it merges into, so no operation fails because a tree is missing or in the way.
-/

namespace SourceRecipe.Run

section

variable {root : Path} {names : List String}

/-- The tree of an operation lies below the build root, at the names of its target. -/
theorem parts_treePath (areNames : ∀ name ∈ names, Path.IsName name) :
    (treePath root (Path.ofNames names)).parts = root.parts ++ names.map .name := by
  cases names with
  | nil => rw [treePath, if_pos (by rfl), List.map_nil, List.append_nil]
  | cons first others =>
      have longer : ¬ (Path.ofNames (first :: others)).text.isEmpty = true := by
        intro empty
        have parts := Path.parts_ofNames areNames
        have nothing : Path.ofNames (first :: others) = ⟨""⟩ :=
          congrArg Path.mk (String.isEmpty_iff.mp empty)
        rw [nothing] at parts
        cases parts
      rw [treePath, if_neg longer, Path.parts_join_ofNames areNames root (List.cons_ne_nil _ _)]

/-- Trees at different names below the build root are at different paths. -/
theorem parts_treePath_inj {others : List String} (areNames : ∀ name ∈ names, Path.IsName name)
    (othersAre : ∀ name ∈ others, Path.IsName name) :
    (treePath root (Path.ofNames names)).parts = (treePath root (Path.ofNames others)).parts ↔
      names = others := by
  rw [parts_treePath areNames, parts_treePath othersAre, List.append_cancel_left_eq]
  exact List.map_inj_right fun _ _ same => PathPart.name.inj same

theorem target_eq_of_parts {operation other : Operation} (inside : operation.IsInside)
    (otherInside : other.IsInside)
    (same : (treePath root operation.target).parts = (treePath root other.target).parts) :
    operation.target = other.target := by
  obtain ⟨names, areNames, target⟩ := inside
  obtain ⟨others, othersAre, otherTarget⟩ := otherInside
  rw [target, otherTarget] at same ⊢
  rw [(parts_treePath_inj areNames othersAre).mp same]

end

/-! ## Trees on a depot -/

/-- Whether the trees below a root are those that some operations have made. -/
def HoldsMade (root : Path) (done : List Operation) (depot : Depot) : Prop :=
  ∀ names, (∀ name ∈ names, Path.IsName name) →
    ((depot.tree? (treePath root (Path.ofNames names))).isSome ↔
      Plan.IsMade done (names.map .name))

variable {root : Path} {done : List Operation} {operation : Operation} {depot after : Depot}

/-- A merge leaves a tree where there was one, and none elsewhere. -/
theorem isSome_tree?_of_merge {path other : Path} {branch revision message : String}
    {outcome : MergeOutcome}
    (merged : Depot.merge path branch revision message depot = (.ok outcome, after)) :
    (after.tree? other).isSome = (depot.tree? other).isSome := by
  obtain ⟨_, tree, theirs, found, _, ⟨_, _, rfl⟩ | ⟨_, _, base, head, _, _, _, rfl⟩⟩ :=
    Depot.merge_eq_ok_iff.mp merged
  · rfl
  · rw [Depot.tree?, Depot.withMerge, Dict.get?_put]
    by_cases same : path.parts = other.parts
    · rw [if_pos same, Depot.tree?, ← same, ← Depot.tree?, found]
      rfl
    · rw [if_neg same, Depot.tree?]

theorem HoldsMade.change {unchanged : Bool} (holds : HoldsMade root done depot)
    (inside : operation.IsInside)
    (changed : change root operation depot = (.ok unchanged, after)) :
    HoldsMade root (done ++ [operation]) after := by
  intro names areNames
  rw [Plan.isMade_concat, ← holds names areNames]
  rcases change_eq_ok_iff.mp changed with
    ⟨repeated, _, rfl⟩ | ⟨nickname, outcome, action, merged, _⟩ | ⟨makes, _, made⟩
  · obtain ⟨nickname, merge⟩ := Operation.exists_merge_of_repeated repeated
    exact (or_iff_left fun makes => Operation.not_makes_of_merge merge makes.1).symm
  · rw [isSome_tree?_of_merge merged]
    exact (or_iff_left fun makes => Operation.not_makes_of_merge action makes.1).symm
  · obtain ⟨others, othersAre, target⟩ := inside
    obtain ⟨_, _, _, commit, _, _, _, rfl⟩ := Depot.checkout_eq_ok_iff.mp made
    have same := @parts_treePath_inj root _ _ othersAre areNames
    rw [target, Path.parts_ofNames othersAre, Depot.tree?, Dict.get?_put]
    by_cases this : others = names
    · rw [if_pos (same.mpr this), this]
      exact ⟨fun _ => .inr ⟨makes, rfl⟩, fun _ => rfl⟩
    · rw [if_neg fun that => this (same.mp that), ← Depot.tree?]
      refine (or_iff_left fun makes => this ?_).symm
      exact (List.map_inj_right fun _ _ same => PathPart.name.inj same).mp makes.2

/-- A run comes to an operation that makes a tree where there is none, and to a merge where the tree
stands. -/
theorem Comes.isSome_tree? {token : Token} {observer : Observer Depot}
    {operations : List Operation} {world there : World Depot}
    (fits : Plan.InTurn Plan.Fits [] operations)
    (inside : ∀ operation ∈ operations, operation.IsInside) (keeps : observer.KeepsStore)
    (free : HoldsMade root [] world.store)
    (comes : Comes Depot.backend token root observer operations world done operation there) :
    (there.store.tree? (treePath root operation.target)).isSome ↔ ¬ operation.Makes := by
  obtain ⟨entries, ran⟩ := comes.changes keeps
  obtain ⟨later, rfl⟩ := comes.planned
  obtain ⟨doneInside, rest⟩ := List.forall_mem_append.mp inside
  obtain ⟨names, areNames, target⟩ := rest operation List.mem_cons_self
  have holds := changes_keeps (fun done operation member depot unchanged later holds changed =>
    HoldsMade.change holds (doneInside operation member) changed) ran free
  rw [List.nil_append] at holds
  have fit : operation.Makes ↔ _ := fits.at_middle
  rw [fit, target, holds names areNames, Path.parts_ofNames areNames, not_not]

/-! ## Failures -/

/-- An operation that finds its tree as it needs it fails neither for want of a tree nor because of
one.  A merge of a revision that is not kept names the revision, and only that may look otherwise.
-/
theorem fault_of_change (whole : depot.IsWhole)
    (stands : (depot.tree? (treePath root operation.target)).isSome ↔ ¬ operation.Makes)
    {fault : Fault} (failed : change root operation depot = (.error fault, after)) :
    (∀ path, fault ≠ .noWorkingTree path) ∧
      ∀ path : Path, fault = .other s!"{path.text} already has a working tree" →
        ¬ operation.Makes ∧ ∃ revision : String, fault = .other s!"unknown revision {revision}" := by
  rcases change_eq_error failed with ⟨merges, message, asked⟩ | ⟨makes, asked⟩
  · have found := stands.mpr merges
    obtain ⟨_, ⟨_, rfl⟩ | ⟨missing, _⟩ | ⟨_, rfl⟩ | ⟨revision, rfl⟩⟩ := Depot.merge_eq_error asked
    · exact ⟨fun _ impossible => (by cases impossible), fun _ impossible => (by cases impossible)⟩
    · rw [missing] at found
      cases found
    · exact ⟨fun _ impossible => (by cases impossible), fun _ impossible => (by cases impossible)⟩
    · exact ⟨fun _ impossible => (by cases impossible), fun _ _ => ⟨merges, revision, rfl⟩⟩
  · obtain ⟨_, ⟨_, rfl⟩ | ⟨taken, _⟩ | rfl | ⟨_, rfl⟩ | ⟨revisions, line, member, unkept⟩⟩ :=
      Depot.checkout_eq_error asked
    · exact ⟨fun _ impossible => (by cases impossible), fun _ impossible => (by cases impossible)⟩
    · exact absurd makes (stands.mp taken)
    · exact ⟨fun _ impossible => (by cases impossible), fun _ impossible => (by cases impossible)⟩
    · exact ⟨fun _ impossible => (by cases impossible), fun _ impossible => (by cases impossible)⟩
    · rw [← Depot.revisions_of_line line] at member
      have kept := whole.lines _ _ member
      rw [Depot.Keeps, (Depot.stored_eq_error unkept).1] at kept
      cases kept

/-- A run of a plan, below a root where nothing stands, stays inside the root: every merge is into
the root tree or into one that an earlier nest has made, and every tree is made once.  So no
operation fails because a tree is missing or in the way. -/
theorem run_finds_trees {tree : Tree Pinned} {operations : List Operation}
    (planned : Plan.ofTree tree = .ok operations) (root : Path) {world : World Depot}
    (reached : Depot.Reached (fun _ => True) world.store)
    (free : ∀ path : Path, root.parts <+: path.parts → world.store.tree? path = none)
    {token : Token} {observer : Observer Depot} (keeps : observer.KeepsStore)
    (version : Option String) :
    (∀ operation ∈ operations, ∃ names : List String, (∀ name ∈ names, Path.IsName name) ∧
      (treePath root operation.target).parts = root.parts ++ names.map .name) ∧
    (∀ done operation later, operations = done ++ operation :: later →
      if operation.action.kind = .merge then
        operation.target = ⟨""⟩ ∨
          ∃ nest ∈ done, nest.action.kind = .nest ∧ nest.target = operation.target
      else
        ∀ earlier ∈ done, earlier.action.kind ≠ .merge →
          (treePath root earlier.target).parts ≠ (treePath root operation.target).parts) ∧
    (∀ done operation there,
      Comes Depot.backend token root observer operations world done operation there →
        ((there.store.tree? (treePath root operation.target)).isSome ↔
          operation.action.kind = .merge)) ∧
    ∀ index branch fault after,
      run Depot.backend token root observer version operations world =
          (.error (.operation index branch fault), after) →
        (∀ path, fault ≠ .noWorkingTree path) ∧
          ∀ path : Path, fault = .other s!"{path.text} already has a working tree" →
            (∃ operation ∈ operations[index]?, operation.action.kind = .merge) ∧
              ∃ revision : String, fault = .other s!"unknown revision {revision}" := by
  obtain ⟨fits, placed⟩ := Plan.ofTree_fits planned
  have inside : ∀ operation ∈ operations, operation.IsInside := fun operation member =>
    (placed operation member).1
  have start : HoldsMade root [] world.store := by
    intro names areNames
    rw [free _ ⟨_, (parts_treePath areNames).symm⟩]
    exact iff_of_false (fun impossible => by cases impossible) Plan.not_isMade_nil
  have stands {done : List Operation} {operation : Operation} {there : World Depot}
      (comes : Comes Depot.backend token root observer operations world done operation there) :=
    comes.isSome_tree? fits inside keeps start
  refine ⟨?_, ?_, fun done operation there comes => (stands comes).trans not_not, ?_⟩
  · intro operation member
    obtain ⟨names, areNames, target⟩ := inside operation member
    exact ⟨names, areNames, by rw [target, parts_treePath areNames]⟩
  · intro done operation later plan
    split
    · rename_i merge
      exact Plan.target_of_merge planned plan (not_not_intro merge)
    · rename_i makes
      intro earlier member earlierMakes same
      rw [plan, List.forall_mem_append] at inside
      exact Plan.target_ne_of_makes planned plan makes earlier member earlierMakes
        (target_eq_of_parts (inside.1 earlier member)
          (inside.2 operation List.mem_cons_self) same)
  · intro index branch fault after ran
    rcases run_eq_error ran with
      ⟨_, impossible⟩ | ⟨done, operation, there, cause, failed, comes, applied, same⟩
    · cases impossible
    · obtain ⟨rfl, rfl, rfl, goesOn⟩ := errorOf_eq_operation same.symm
      obtain ⟨depot, changed⟩ := (apply_depot_eq_error applied).resolve_left goesOn
      obtain ⟨entries, carried⟩ := comes.changes keeps
      have whole := changes_invariant (fun _ _ _ _ _ whole made => Depot.IsWhole.checkout whole made)
        (fun _ _ _ _ _ _ _ whole merged => whole.merge merged) carried reached.isWhole
      obtain ⟨noTree, taken⟩ := fault_of_change whole (stands comes) changed
      refine ⟨noTree, fun path spelled => ?_⟩
      obtain ⟨merges, unkept⟩ := taken path spelled
      obtain ⟨later, plan⟩ := comes.planned
      refine ⟨⟨operation, ?_, not_not.mp merges⟩, unkept⟩
      rw [plan, List.getElem?_append_right (Nat.le_refl _), Nat.sub_self]
      rfl

def nestedTree : Tree Pinned :=
  ⟨⟨⟨"base", .tip⟩, "b1"⟩, .step "doc" (.nest "doc") ⟨⟨"docs", .tip⟩, "d1"⟩
    (.step "more" .merge ⟨⟨"more", .tip⟩, "m1"⟩ .done .done) .done⟩

def nestedOperations : List Operation :=
  [⟨.checkout, "base", "b1", ⟨""⟩, 0⟩, ⟨.nest "doc" "doc", "docs", "d1", ⟨"doc"⟩, 0⟩,
    ⟨.merge "more" false, "more", "m1", ⟨"doc"⟩, 1⟩]

/-- A branch for each of the two trees, and the one that is merged into the nested tree. -/
def nestedDepot : Depot :=
  ((Depot.empty.commit "base" "b1" ⟨0, 0⟩ [("README", "1")]).commit "docs" "d1" ⟨5, 0⟩
    [("index", "2")]).commit "more" "m1" ⟨9, 0⟩ [("extra", "3")]

theorem run_finds_trees_nestedTree :
    Plan.ofTree nestedTree = .ok nestedOperations ∧
      ∃ there,
        Comes Depot.backend ⟨0, none⟩ ⟨"out"⟩ .silent nestedOperations (.initial nestedDepot)
          (nestedOperations.take 2) ⟨.merge "more" false, "more", "m1", ⟨"doc"⟩, 1⟩ there ∧
        (there.store.tree? (treePath ⟨"out"⟩ ⟨"doc"⟩)).isSome := by
  have planned : Plan.ofTree nestedTree = .ok nestedOperations := by decide +kernel
  have ran : (runFrom Depot.backend ⟨0, none⟩ ⟨"out"⟩ .silent 3 0 (nestedOperations.take 2)
      (.initial nestedDepot)).1 =
        .ok [⟨.checkout, "base", none, "b1", Path.onSystem ⟨""⟩, none, 0, false⟩,
          ⟨.nest, "docs", some "doc", "d1", Path.onSystem ⟨"doc"⟩, some "doc", 0, false⟩] := by
    decide +kernel
  have comes := @comes_of_runFrom Depot Depot.backend ⟨0, none⟩ ⟨"out"⟩ .silent nestedOperations
    (nestedOperations.take 2) ⟨.merge "more" false, "more", "m1", ⟨"doc"⟩, 1⟩ (.initial nestedDepot)
    [] _ _ rfl (Prod.ext ran rfl) (by decide +kernel)
  have reached : Depot.Reached (fun _ => True) nestedDepot :=
    .commit (.commit (.commit .empty "base" trivial ⟨0, 0⟩ _) "docs" trivial ⟨5, 0⟩ _) "more" trivial
      ⟨9, 0⟩ _
  have finds := (@run_finds_trees _ _ planned ⟨"out"⟩ (.initial nestedDepot) reached
    (fun _ _ => rfl) ⟨0, none⟩ .silent (fun _ _ => rfl) none).2.2.1
  exact ⟨planned, _, comes, (finds _ _ _ comes).mpr rfl⟩

end SourceRecipe.Run
