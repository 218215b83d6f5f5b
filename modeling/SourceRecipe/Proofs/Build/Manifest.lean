import Mathlib.Data.List.Forall2
import SourceRecipe.Build.Manifest
import SourceRecipe.Proofs.Build.Plan
import SourceRecipe.Proofs.Tree.Opening

/-!
# Manifests of plans

A plan spells the listing of the tree it was made for: each operation has the depth, the nickname,
the directive, the place and the revision of one line, in the same order.  The manifest of a plan
that was carried out therefore describes the tree that asks for exactly the pinned revisions.
-/

namespace SourceRecipe

def Operation.line (operation : Operation) : Nat × Step Source :=
  (operation.depth, (ManifestEntry.ofOperation operation false).step)

/-- What a manifest says of an operation besides whether it changed anything. -/
theorem ManifestEntry.line_ofOperation (operation : Operation) (unchanged : Bool) :
    ((ofOperation operation unchanged).depth, (ofOperation operation unchanged).step) =
      operation.line := rfl

namespace Plan

theorem line_mergeOperation (ancestors : List (String × String)) (here : TreePath) (depth : Nat)
    (nickname : String) (branch : Pinned) :
    (mergeOperation ancestors here depth nickname branch).line =
      Entry.bare ⟨depth, nickname, .merge, branch.exactly⟩ := rfl

theorem line_nestOperation (tree : TreePath) (depth : Nat) (nickname location : String)
    (branch : Pinned) :
    (nestOperation tree depth nickname location branch).line =
      Entry.bare ⟨depth, nickname, .nest location, branch.exactly⟩ := rfl

/-- The operations of a block spell its listing, whatever tree they apply to. -/
theorem map_line_ofBlock {block : Instructions Pinned} {ancestors : List (String × String)}
    {here : TreePath} {depth : Nat} {nests final : Nests} {operations : List Operation}
    (planned : ofBlock ancestors here depth nests block = .ok (operations, final)) :
    operations.map Operation.line =
      ((block.map Pinned.exactly).listing depth).map Entry.bare := by
  induction block generalizing ancestors here depth nests final operations with
  | done =>
      cases planned
      rfl
  | step nickname directive branch inner later innerIh laterIh =>
      cases directive with
      | merge =>
          obtain ⟨under, middle, after, inside, behind, rfl⟩ := ofBlock_merge_eq_ok_iff.mp planned
          simp only [List.map_cons, List.map_append, Instructions.map, Instructions.listing,
            line_mergeOperation, innerIh inside, laterIh behind]
      | nest location =>
          obtain ⟨names, under, middle, after, _, _, inside, behind, rfl⟩ :=
            ofBlock_nest_eq_ok_iff.mp planned
          simp only [List.map_cons, List.map_append, Instructions.map, Instructions.listing,
            line_nestOperation, innerIh inside, laterIh behind]

end Plan

namespace Manifest

/-- The recipe of a manifest depends on the lines of its entries alone. -/
theorem recipe?_cons_of_checkout {first : ManifestEntry} (checkout : first.kind = .checkout)
    (others : List ManifestEntry) (version : Option String) :
    recipe? ⟨version, first :: others⟩ =
      some ⟨⟨Header.newestFormat, version⟩,
        ⟨first.source, .ofLines (others.map fun entry => (entry.depth, entry.step))⟩⟩ := by
  have tree : tree? ⟨version, first :: others⟩ = some ((Tree.mk first.source .done).attach
      (others.map fun entry => (entry.depth, entry.step))) := if_pos checkout
  rw [recipe?, tree, Tree.attach_eq]
  rfl

/-- Whether some entries tell that some operations were carried out, one by one. -/
def Records : List Operation → List ManifestEntry → Prop :=
  List.Forall₂ fun operation entry =>
    ∃ unchanged, entry = ManifestEntry.ofOperation operation unchanged

theorem Records.map_line {operations : List Operation} {entries : List ManifestEntry}
    (records : Records operations entries) :
    (entries.map fun entry => (entry.depth, entry.step)) = operations.map Operation.line := by
  induction records with
  | nil => rfl
  | cons entry _ ih =>
      obtain ⟨unchanged, rfl⟩ := entry
      rw [List.map_cons, List.map_cons, ih, ManifestEntry.line_ofOperation]

theorem Records.exists_of_mem {operations : List Operation} {entries : List ManifestEntry}
    (records : Records operations entries) {entry : ManifestEntry} (member : entry ∈ entries) :
    ∃ operation ∈ operations, ∃ unchanged, entry = ManifestEntry.ofOperation operation unchanged := by
  induction records with
  | nil => cases member
  | cons first _ ih =>
      rcases List.mem_cons.mp member with rfl | member
      · exact ⟨_, List.mem_cons_self, first⟩
      · obtain ⟨operation, later, records⟩ := ih member
        exact ⟨operation, List.mem_cons_of_mem _ later, records⟩

theorem Records.ofOperation_mem {operations : List Operation} {entries : List ManifestEntry}
    (records : Records operations entries) {operation : Operation} (member : operation ∈ operations) :
    ∃ unchanged, ManifestEntry.ofOperation operation unchanged ∈ entries := by
  induction records with
  | nil => cases member
  | cons first _ ih =>
      rcases List.mem_cons.mp member with rfl | member
      · obtain ⟨unchanged, rfl⟩ := first
        exact ⟨unchanged, List.mem_cons_self⟩
      · obtain ⟨unchanged, later⟩ := ih member
        exact ⟨unchanged, List.mem_cons_of_mem _ later⟩

theorem records_mapIdx (operations : List Operation) (unchanged : Nat → Bool) :
    Records operations
      (operations.mapIdx fun index operation =>
        ManifestEntry.ofOperation operation (unchanged index)) := by
  refine List.forall₂_iff_get.mpr ⟨List.length_mapIdx.symm, ?_⟩
  intro index _ _
  exact ⟨unchanged index, by simp⟩

/-- The manifest of a plan that was carried out describes the recipe that asks for exactly the
revisions of the planned tree. -/
theorem recipe?_of_records {tree : Tree Pinned} {operations : List Operation}
    (planned : Plan.ofTree tree = .ok operations) {entries : List ManifestEntry}
    (records : Records operations entries) (version : Option String) :
    recipe? ⟨version, entries⟩ = some ⟨⟨Header.newestFormat, version⟩, tree.exactly⟩ := by
  obtain ⟨others, nests, block, rfl⟩ := Plan.ofTree_eq_ok_iff.mp planned
  cases records with
  | cons root rest =>
      obtain ⟨unchanged, rfl⟩ := root
      have lines := (Records.map_line rest).trans (Plan.map_line_ofBlock block)
      rw [recipe?_cons_of_checkout rfl, lines, Instructions.ofLines_listing]
      rfl

/-- The entries of a plan that was carried out name its branches at the revisions used, in the order
of recipe text. -/
theorem map_source_of_records {tree : Tree Pinned} {operations : List Operation}
    (planned : Plan.ofTree tree = .ok operations) {entries : List ManifestEntry}
    (records : Records operations entries) :
    entries.map ManifestEntry.source = tree.exactly.branches := by
  obtain ⟨others, nests, block, rfl⟩ := Plan.ofTree_eq_ok_iff.mp planned
  cases records with
  | cons root rest =>
      obtain ⟨unchanged, rfl⟩ := root
      have lines := congrArg (List.map fun line => line.2.branch)
        ((Records.map_line rest).trans (Plan.map_line_ofBlock block))
      rw [List.map_map, List.map_map] at lines
      exact congrArg (tree.base.exactly :: ·)
        (lines.trans (Instructions.map_branch_listing 0 (tree.instructions.map Pinned.exactly)))

/-- Planning a pinned tree, carrying the plan out and reading its manifest gives the recipe that
asks for exactly the pinned revisions, whichever operations found nothing to do. -/
theorem recipe?_of_plan {tree : Tree Pinned} {operations : List Operation}
    (planned : Plan.ofTree tree = .ok operations) (version : Option String)
    (unchanged : Nat → Bool) :
    recipe? ⟨version, operations.mapIdx fun index operation =>
        ManifestEntry.ofOperation operation (unchanged index)⟩ =
      some ⟨⟨"0.4", version⟩, tree.exactly⟩ :=
  recipe?_of_records planned (records_mapIdx operations unchanged) version

/-- A tree with a nest under a merge, a merge that repeats its base and a step back up. -/
def sampleTree : Tree Pinned :=
  ⟨⟨⟨"base", .tip⟩, "b2"⟩,
    .step "packaging" .merge ⟨⟨"packaging", .tag "1.0"⟩, "p1"⟩
      (.step "art" (.nest "./images//") ⟨⟨"art", .tip⟩, "a7"⟩
        (.step "again" .merge ⟨⟨"base", .revision "b2"⟩, "b2"⟩ .done .done) .done)
      (.step "doc" (.nest "doc") ⟨⟨"docs", .tip⟩, "d1"⟩ .done .done)⟩

theorem recipe?_of_plan_sampleTree :
    ∃ operations, Plan.ofTree sampleTree = .ok operations ∧
      recipe? ⟨some "1.0", operations.mapIdx fun index operation =>
          ManifestEntry.ofOperation operation (index == 3)⟩ =
        some ⟨⟨"0.4", some "1.0"⟩, sampleTree.exactly⟩ :=
  ⟨_, rfl, recipe?_of_plan rfl (some "1.0") (· == 3)⟩

end Manifest

end SourceRecipe
