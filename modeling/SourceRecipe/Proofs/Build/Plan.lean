import SourceRecipe.Build.Plan
import SourceRecipe.Proofs.Sequence

/-!
# What a plan is made of

The operations of a block are those of its first instruction, of the block under it and of the
block after it.  `ofBlock_merge_eq_ok_iff` and `ofBlock_nest_eq_ok_iff` say all that a step of
planning does when it succeeds, so that no other proof has to open it.
-/

namespace SourceRecipe.Plan

def mergeOperation (ancestors : List (String × String)) (here : TreePath) (depth : Nat)
    (nickname : String) (branch : Pinned) : Operation :=
  ⟨.merge nickname (ancestors.contains branch.key), branch.source.location, branch.revision,
    Path.ofNames here, depth⟩

def nestOperation (tree : TreePath) (depth : Nat) (nickname location : String)
    (branch : Pinned) : Operation :=
  ⟨.nest nickname location, branch.source.location, branch.revision, Path.ofNames tree, depth⟩

def rootOperation (base : Pinned) : Operation :=
  ⟨.checkout, base.source.location, base.revision, Path.ofNames [], 0⟩

theorem ofBlock_merge_eq_ok_iff {ancestors : List (String × String)} {here : TreePath}
    {depth : Nat} {nests final : Nests} {nickname : String} {branch : Pinned}
    {inner later : Instructions Pinned} {operations : List Operation} :
    ofBlock ancestors here depth nests (.step nickname .merge branch inner later) =
        .ok (operations, final) ↔
      ∃ under middle after,
        ofBlock (branch.key :: ancestors) here (depth + 1) nests inner = .ok (under, middle) ∧
        ofBlock ancestors here depth middle later = .ok (after, final) ∧
        operations = mergeOperation ancestors here depth nickname branch :: (under ++ after) := by
  rw [ofBlock, bind_eq_ok_iff]
  constructor
  · rintro ⟨⟨under, middle⟩, inside, rest⟩
    obtain ⟨⟨after, last⟩, behind, same⟩ := bind_eq_ok_iff.mp rest
    cases same
    exact ⟨under, middle, after, inside, behind, rfl⟩
  · rintro ⟨under, middle, after, inside, behind, rfl⟩
    exact ⟨(under, middle), inside, bind_eq_ok_iff.mpr ⟨(after, final), behind, rfl⟩⟩

theorem ofBlock_nest_eq_ok_iff {ancestors : List (String × String)} {here : TreePath}
    {depth : Nat} {nests final : Nests} {nickname location : String} {branch : Pinned}
    {inner later : Instructions Pinned} {operations : List Operation} :
    ofBlock ancestors here depth nests (.step nickname (.nest location) branch inner later) =
        .ok (operations, final) ↔
      ∃ names under middle after,
        locationNames location = .ok names ∧
        nests.lookup (here ++ names) = none ∧
        ofBlock (branch.key :: ancestors) (here ++ names) (depth + 1)
          ((here ++ names, nickname) :: nests) inner = .ok (under, middle) ∧
        ofBlock ancestors here depth middle later = .ok (after, final) ∧
        operations =
          nestOperation (here ++ names) depth nickname location branch :: (under ++ after) := by
  rw [ofBlock]
  cases spelled : locationNames location with
  | error flaw =>
      constructor
      · intro impossible
        cases impossible
      · rintro ⟨_, _, _, _, impossible, _⟩
        cases impossible
  | ok names =>
      cases taken : nests.lookup (here ++ names) with
      | some first =>
          simp only [taken]
          constructor
          · intro impossible
            cases impossible
          · rintro ⟨_, _, _, _, same, free, _⟩
            cases same
            rw [taken] at free
            cases free
      | none =>
          simp only [taken, bind_eq_ok_iff]
          constructor
          · rintro ⟨⟨under, middle⟩, inside, ⟨after, last⟩, behind, same⟩
            cases same
            exact ⟨names, under, middle, after, rfl, taken, inside, behind, rfl⟩
          · rintro ⟨_, under, middle, after, same, _, inside, behind, rfl⟩
            cases same
            exact ⟨(under, middle), inside, (after, final), behind, rfl⟩

/-- A plan begins with the root tree and goes on with the operations of the block. -/
theorem ofTree_eq_ok_iff {tree : Tree Pinned} {operations : List Operation} :
    ofTree tree = .ok operations ↔
      ∃ others nests, ofBlock [tree.base.key] [] 0 [] tree.instructions = .ok (others, nests) ∧
        operations = rootOperation tree.base :: others := by
  rw [ofTree, bind_eq_ok_iff]
  constructor
  · rintro ⟨⟨others, nests⟩, planned, same⟩
    cases same
    exact ⟨others, nests, planned, rfl⟩
  · rintro ⟨others, nests, planned, rfl⟩
    exact ⟨(others, nests), planned, rfl⟩

/-- A tree is refused with its block. -/
theorem ofTree_eq_error_iff {tree : Tree Pinned} {error : PlanError} :
    ofTree tree = .error error ↔
      ofBlock [tree.base.key] [] 0 [] tree.instructions = .error error := by
  rw [ofTree, bind_eq_error_iff]
  constructor
  · rintro (refused | ⟨_, _, impossible⟩)
    · exact refused
    · cases impossible
  · exact .inl

/-- A plan is made of the places and the revisions of the branches alone. -/
theorem ofBlock_map {f : Pinned → Pinned} (keys : ∀ branch, (f branch).key = branch.key)
    (block : Instructions Pinned) (ancestors : List (String × String)) (here : TreePath)
    (depth : Nat) (nests : Nests) :
    ofBlock ancestors here depth nests (block.map f) = ofBlock ancestors here depth nests block := by
  induction block generalizing ancestors here depth nests with
  | done => rfl
  | step nickname directive branch inner later innerIh laterIh =>
      obtain ⟨location, revision⟩ := Prod.mk.inj (keys branch)
      cases directive with
      | merge => simp only [Instructions.map, ofBlock, keys, location, revision, innerIh, laterIh]
      | nest => simp only [Instructions.map, ofBlock, keys, location, revision, innerIh, laterIh]

theorem ofTree_map {f : Pinned → Pinned} (keys : ∀ branch, (f branch).key = branch.key)
    (tree : Tree Pinned) : ofTree (tree.map f) = ofTree tree := by
  obtain ⟨location, revision⟩ := Prod.mk.inj (keys tree.base)
  simp only [ofTree, Tree.map, keys, location, revision, ofBlock_map keys]

/-! ## Repeated merges -/

/-- A merge is repeated for a revision of a branch above it only, so what holds of the revisions
of those and of all operations that are not repeated holds of every revision. -/
theorem ofBlock_revisions (Means : String → Prop) {block : Instructions Pinned}
    {ancestors : List (String × String)} {here : TreePath} {depth : Nat} {nests final : Nests}
    {operations : List Operation}
    (planned : ofBlock ancestors here depth nests block = .ok (operations, final))
    (above : ∀ key ∈ ancestors, Means key.2)
    (done : ∀ operation ∈ operations, operation.isRepeatedMerge = false →
      Means operation.revision) :
    ∀ branch ∈ block.branches, Means branch.revision := by
  induction block generalizing ancestors here depth nests final operations with
  | done => exact List.forall_mem_nil _
  | step nickname directive branch inner later innerIh laterIh =>
      rw [Instructions.branches, List.forall_mem_cons, List.forall_mem_append]
      cases directive with
      | merge =>
          obtain ⟨under, middle, after, inside, behind, rfl⟩ := ofBlock_merge_eq_ok_iff.mp planned
          rw [List.forall_mem_cons, List.forall_mem_append] at done
          obtain ⟨merged, underDone, afterDone⟩ := done
          have means : Means branch.revision := by
            cases repeated : ancestors.contains branch.key with
            -- A repeated merge is never carried out, but its branch stands above it.
            | true => exact above branch.key (List.contains_iff_mem.mp repeated)
            | false => exact merged repeated
          exact ⟨means, innerIh inside (List.forall_mem_cons.mpr ⟨means, above⟩) underDone,
            laterIh behind above afterDone⟩
      | nest location =>
          obtain ⟨names, under, middle, after, _, _, inside, behind, rfl⟩ :=
            ofBlock_nest_eq_ok_iff.mp planned
          rw [List.forall_mem_cons, List.forall_mem_append] at done
          obtain ⟨made, underDone, afterDone⟩ := done
          have means : Means branch.revision := made rfl
          exact ⟨means, innerIh inside (List.forall_mem_cons.mpr ⟨means, above⟩) underDone,
            laterIh behind above afterDone⟩

theorem ofTree_revisions (Means : String → Prop) {tree : Tree Pinned}
    {operations : List Operation} (planned : ofTree tree = .ok operations)
    (done : ∀ operation ∈ operations, operation.isRepeatedMerge = false →
      Means operation.revision) :
    ∀ branch ∈ tree.branches, Means branch.revision := by
  obtain ⟨others, nests, block, rfl⟩ := ofTree_eq_ok_iff.mp planned
  obtain ⟨root, othersDone⟩ := List.forall_mem_cons.mp done
  have base : Means tree.base.revision := root rfl
  refine List.forall_mem_cons.mpr ⟨base, ofBlock_revisions Means block ?_ othersDone⟩
  exact List.forall_mem_cons.mpr ⟨base, List.forall_mem_nil _⟩

end SourceRecipe.Plan
