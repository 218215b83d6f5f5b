import SourceRecipe.Depot.Backend
import SourceRecipe.Proofs.Build.Resolution
import SourceRecipe.Proofs.Tree.Search

/-!
# Nicknames in recipes and in pinned trees

A nickname may stand in a recipe more than once, deep under one instruction and at the top later on.
The search finds the one whose line comes first, and in the pinned tree it finds what became of that
same instruction, so that a revision number is never taken from another one.
-/

namespace SourceRecipe.Resolution

/-- Whether an instruction of a pinned tree is what became of an instruction of the recipe. -/
structure Pins (known : Revisions) (step : Step Source) (pinned : Step Pinned) : Prop where
  nickname : pinned.nickname = step.nickname
  directive : pinned.directive = step.directive
  source : pinned.branch.source = step.branch
  revision : known.get? step.branch = some pinned.branch.revision
  inner : pinned.inner.map Pinned.source = step.inner

variable {σ : Type} {known later : Revisions} {tree : Tree Source} {pinned : Tree Pinned}
  {world after : World σ} {step : Step Source}

/-- The branch of an instruction is one of the branches of its block. -/
theorem branch_mem_of_standsAt {block : Instructions Source} {place level : Nat}
    (stands : block.StandsAt 0 place level step) : step.branch ∈ block.branches := by
  rw [← Instructions.map_branch_listing 0]
  exact List.mem_map.mpr ⟨_, List.mem_of_getElem? stands.getElem?, rfl⟩

/-- What is known of the branches turns an instruction into its pinned form. -/
theorem pins_map {block : Instructions Source} {place level : Nat}
    (knows : ∀ source ∈ block.branches, (later.get? source).isSome)
    (stands : block.StandsAt 0 place level step) :
    Pins later step (step.map (pinnedBy (answerOf later))) where
  nickname := rfl
  directive := rfl
  source := rfl
  revision := by
    obtain ⟨revision, found⟩ :=
      Option.isSome_iff_exists.mp (knows step.branch (branch_mem_of_standsAt stands))
    rw [Step.map, pinnedBy, answerOf, found]
    rfl
  inner := by
    rw [Step.map, Instructions.map_map]
    exact Instructions.map_id step.inner

/-- A search in a recipe finds the instruction on the first line with the nickname, or nothing where
no line has it.  When the tree is pinned, the same search finds what became of that instruction, at
the same place, and nothing where there was nothing. -/
theorem find?_agrees (tree : Tree Source) (wanted : String) :
    (∀ step, tree.find? wanted = some step ↔
      ∃ place level, tree.instructions.StandsAt 0 place level step ∧ step.nickname = wanted ∧
        ∀ line ∈ (tree.instructions.listing 0).take place, line.nickname ≠ wanted) ∧
    (tree.find? wanted = none ↔
      ∀ line ∈ tree.instructions.listing 0, line.nickname ≠ wanted) ∧
    ∀ (σ : Type) (look : List Source → StateM (World σ) (List (Outcome String)))
      (known later : Revisions) (pinned : Tree Pinned) (world after : World σ),
      resolveBy look known tree world = ((.ok pinned, later), after) →
        (tree.find? wanted = none → pinned.find? wanted = none) ∧
        ∀ step, tree.find? wanted = some step → ∃ found place level,
          pinned.find? wanted = some found ∧ Pins later step found ∧
          tree.instructions.StandsAt 0 place level step ∧
          pinned.instructions.StandsAt 0 place level found := by
  refine ⟨fun step => Instructions.find?_eq_some_iff 0, Instructions.find?_eq_none_iff 0, ?_⟩
  intro σ look known later pinned world after resolved
  obtain ⟨_, _, _, _, trees, _⟩ := resolveBy_eq_ok_iff.mp resolved
  obtain ⟨knows, rfl⟩ := pinTree_eq_ok_iff.mp trees
  have same : (tree.map (pinnedBy (answerOf later))).find? wanted =
      (tree.find? wanted).map (Step.map (pinnedBy (answerOf later))) :=
    Instructions.find?_map _ wanted tree.instructions
  refine ⟨fun nothing => by rw [same, nothing, Option.map_none], fun step found => ?_⟩
  obtain ⟨place, level, stands, _⟩ := Instructions.standsAt_of_find? found 0
  have inside : ∀ source ∈ tree.instructions.branches, (later.get? source).isSome :=
    fun source member => knows source (List.mem_cons_of_mem _ member)
  exact ⟨_, place, level, by rw [same, found, Option.map_some], pins_map inside stands, stands,
    stands.map _⟩

/-! ## A nickname that stands twice -/

def twofoldDepot : Depot :=
  (((Depot.empty.commit "base" "b1" ⟨0, 0⟩ [("README", "1")]).commit "app" "a1" ⟨1, 0⟩
    [("app.c", "1")]).commit "old" "o1" ⟨2, 0⟩ [("lib.c", "1")]).commit "new" "n1" ⟨3, 0⟩
    [("lib.c", "2")]

/-- A library nested under an instruction, and after it another library of the same nickname at the
top. -/
def twofoldTree : Tree Source :=
  ⟨⟨"base", .tip⟩, .step "app" .merge ⟨"app", .tip⟩
    (.step "lib" (.nest "lib") ⟨"old", .tip⟩ .done .done)
    (.step "lib" .merge ⟨"new", .tip⟩ .done .done)⟩

/-- The deep library is found and not the one at the top, before the tree is pinned and after. -/
theorem find?_agrees_twofoldTree :
    ∃ pinned later after, resolve Depot.backend ⟨0, none⟩ .empty twofoldTree
        (.initial twofoldDepot) = ((.ok pinned, later), after) ∧
      (∀ step, twofoldTree.find? "lib" = some step → step.branch = ⟨"old", .tip⟩ ∧
        ∃ found, pinned.find? "lib" = some found ∧ Pins later step found) ∧
      ∃ found, pinned.find? "lib" = some found ∧ found.branch.revision = "o1" := by
  refine ⟨_, _, _, rfl, ?_, _, rfl, rfl⟩
  intro step found
  obtain ⟨other, _, _, same, pins, _⟩ := (find?_agrees twofoldTree "lib").2.2 Depot
    (lookupAll Depot.backend ⟨0, none⟩ false) .empty _ _ (.initial twofoldDepot) _ rfl |>.2 step
      found
  cases found
  exact ⟨rfl, other, same, pins⟩

end SourceRecipe.Resolution
