import SourceRecipe.Proofs.Build.Changes
import SourceRecipe.Proofs.Depot.Reached

/-!
# Repeated merges

A merge is planned as repeated when a branch above it has its place and its revision, whichever tree
that one went to.  The revision has been brought in by an operation before it, then; when that one
worked on the same tree, the revision is in the history of the tree, and the merge that is left out
would have found nothing to do.  Below a nest it may be another tree that has the revision.
-/

namespace SourceRecipe

/-- What an operation brings in: a place and a revision. -/
def Operation.key (operation : Operation) : String × String :=
  (operation.branch, operation.revision)

namespace Plan

/-- Whether one of some operations that are not repeated merges brings in a place and a revision. -/
def IsBroughtIn (done : List Operation) (key : String × String) : Prop :=
  ∃ earlier ∈ done, earlier.isRepeatedMerge = false ∧ earlier.key = key

theorem IsBroughtIn.append {done : List Operation} {key : String × String}
    (brought : IsBroughtIn done key) (others : List Operation) : IsBroughtIn (done ++ others) key := by
  obtain ⟨earlier, member, works⟩ := brought
  exact ⟨earlier, List.mem_append_left others member, works⟩

/-- Whether an operation is a repeated merge only of what an operation before it brings in. -/
def Repeats (done : List Operation) (operation : Operation) : Prop :=
  operation.isRepeatedMerge = true → IsBroughtIn done operation.key

/-- The repeated merges of a block are of what is brought in by the operations of the branches above
them. -/
theorem ofBlock_repeats {block : Instructions Pinned} {ancestors : List (String × String)}
    {here : TreePath} {depth : Nat} {nests final : Nests} {done operations : List Operation}
    (planned : ofBlock ancestors here depth nests block = .ok (operations, final))
    (above : ∀ key ∈ ancestors, IsBroughtIn done key) : InTurn Repeats done operations := by
  induction block generalizing ancestors here depth nests final done operations with
  | done =>
      cases planned
      exact trivial
  | step nickname directive branch inner later innerIh laterIh =>
      cases directive with
      | merge =>
          obtain ⟨under, middle, after, inside, behind, rfl⟩ := ofBlock_merge_eq_ok_iff.mp planned
          have own : IsBroughtIn (done ++ [mergeOperation ancestors here depth nickname branch])
              branch.key := by
            cases repeated : ancestors.contains branch.key with
            | true => exact (above branch.key (List.contains_iff_mem.mp repeated)).append _
            | false => exact ⟨_, List.mem_append_right done List.mem_cons_self, repeated, rfl⟩
          have still : ∀ key ∈ ancestors,
              IsBroughtIn (done ++ [mergeOperation ancestors here depth nickname branch]) key :=
            fun key member => (above key member).append _
          refine ⟨fun repeated => above branch.key (List.contains_iff_mem.mp repeated),
            inTurn_append.mpr ⟨innerIh inside (List.forall_mem_cons.mpr ⟨own, still⟩), ?_⟩⟩
          exact laterIh behind fun key member => (still key member).append _
      | nest location =>
          obtain ⟨names, under, middle, after, _, _, inside, behind, rfl⟩ :=
            ofBlock_nest_eq_ok_iff.mp planned
          have own : IsBroughtIn
              (done ++ [nestOperation (here ++ names) depth nickname location branch]) branch.key :=
            ⟨_, List.mem_append_right done List.mem_cons_self, rfl, rfl⟩
          have still : ∀ key ∈ ancestors, IsBroughtIn
              (done ++ [nestOperation (here ++ names) depth nickname location branch]) key :=
            fun key member => (above key member).append _
          refine ⟨fun impossible => (by cases impossible),
            inTurn_append.mpr ⟨innerIh inside (List.forall_mem_cons.mpr ⟨own, still⟩), ?_⟩⟩
          exact laterIh behind fun key member => (still key member).append _

theorem ofTree_repeats {tree : Tree Pinned} {operations : List Operation}
    (planned : ofTree tree = .ok operations) : InTurn Repeats [] operations := by
  obtain ⟨others, nests, block, rfl⟩ := ofTree_eq_ok_iff.mp planned
  refine ⟨fun impossible => (by cases impossible), ofBlock_repeats block ?_⟩
  exact List.forall_mem_singleton.mpr ⟨_, List.mem_cons_self, rfl, rfl⟩

end Plan

namespace Run

/-! ## What trees have in their history -/

/-- Whether a tree stands at a path with a revision in its history, the revision being kept. -/
def Has (depot : Depot) (path : Path) (revision : String) : Prop :=
  depot.Keeps revision ∧
    ∃ tree, depot.tree? path = some tree ∧ revision ∈ depot.history.ancestors tree.head

variable {root path : Path} {operation : Operation} {depot after : Depot} {revision : String}

/-- A merge of what a tree has finds nothing to do. -/
theorem Has.merge_eq (has : Has depot path revision) {branch : String}
    (reaches : depot.Reaches branch) (message : String) :
    Depot.merge path branch revision message depot = (.ok .upToDate, depot) := by
  obtain ⟨kept, tree, found, known⟩ := has
  obtain ⟨theirs, kept⟩ := Option.isSome_iff_exists.mp kept
  exact Depot.merge_eq_ok_iff.mpr
    ⟨reaches, tree, theirs, found, Depot.stored_eq_ok_iff.mpr kept, .inl ⟨known, rfl, rfl⟩⟩

/-- A checkout leaves all other trees with their history. -/
theorem Has.checkout (has : Has depot path revision) {branch other : String} {target : Path}
    {answer : Unit}
    (made : Depot.checkout branch other target depot = (.ok answer, after)) :
    Has after path revision := by
  obtain ⟨kept, tree, found, known⟩ := has
  obtain ⟨_, free, _, commit, _, _, _, rfl⟩ := Depot.checkout_eq_ok_iff.mp made
  refine ⟨kept, tree, ?_, known⟩
  rw [Depot.tree?, Dict.get?_put, if_neg]
  · exact found
  · intro same
    rw [Depot.tree?, same, ← Depot.tree?, found] at free
    cases free

/-- The tree that a merge was committed to has all that descends from the parents of the commit. -/
theorem has_withMerge (spares : depot.SparesMerges) {branch parent : String} {added : Commit}
    (kept : depot.Keeps revision) (above : parent ∈ added.parents)
    (known : revision ∈ depot.history.ancestors parent) :
    Has (depot.withMerge path branch added) path revision := by
  refine ⟨kept.put, _, Dict.get?_put_self _ _ _, ?_⟩
  have still := History.mem_ancestors_of_parents
    (spares.parents_withMerge path branch added) known
  rw [History.mem_ancestors_iff] at still ⊢
  refine .head ?_ still
  rw [Depot.withMerge, History.parents_put, if_pos rfl]
  exact above

/-- A merge adds to the history of its tree, and takes nothing from any other. -/
theorem Has.merge (has : Has depot path revision) (spares : depot.SparesMerges) {target : Path}
    {branch other message : String} {outcome : MergeOutcome}
    (merged : Depot.merge target branch other message depot = (.ok outcome, after)) :
    Has after path revision := by
  obtain ⟨_, tree, theirs, found, _, ⟨_, _, rfl⟩ | ⟨_, _, base, head, _, _, _, rfl⟩⟩ :=
    Depot.merge_eq_ok_iff.mp merged
  · exact has
  · obtain ⟨kept, stands, standing, known⟩ := has
    by_cases same : target.parts = path.parts
    · rw [Depot.tree?, ← same, ← Depot.tree?, found] at standing
      cases standing
      obtain ⟨kept, tree, here, known⟩ :=
        @has_withMerge target _ _ spares tree.branch _ ⟨[tree.head, other], _, _, _⟩ kept
          List.mem_cons_self known
      rw [Depot.tree?, same] at here
      exact ⟨kept, tree, here, known⟩
    · refine ⟨kept.put, stands, ?_, History.mem_ancestors_of_parents
        (spares.parents_withMerge target tree.branch _) known⟩
      rw [Depot.tree?, Depot.withMerge, Dict.get?_put, if_neg same]
      exact standing

theorem has_of_merge (spares : depot.SparesMerges) {branch message : String} {outcome : MergeOutcome}
    (merged : Depot.merge path branch revision message depot = (.ok outcome, after)) :
    Has after path revision := by
  obtain ⟨_, tree, theirs, found, kept, ⟨known, _, rfl⟩ | ⟨_, _, base, head, _, _, _, rfl⟩⟩ :=
    Depot.merge_eq_ok_iff.mp merged
  · exact ⟨Depot.keeps_of_stored kept, tree, found, known⟩
  · refine has_withMerge spares (Depot.keeps_of_stored kept)
      (List.mem_cons_of_mem _ List.mem_cons_self) ?_
    exact History.mem_ancestors_iff.mpr .refl

theorem has_of_checkout {branch : String} {answer : Unit}
    (made : Depot.checkout branch revision path depot = (.ok answer, after)) :
    Has after path revision := by
  obtain ⟨_, _, _, commit, _, _, stored, rfl⟩ := Depot.checkout_eq_ok_iff.mp made
  refine ⟨Depot.keeps_of_stored stored, _, Dict.get?_put_self _ _ _, ?_⟩
  exact History.mem_ancestors_iff.mpr .refl

/-! ## Runs -/

/-- Whether every tree has what the operations done on it have brought in. -/
structure HasAll (root : Path) (done : List Operation) (depot : Depot) : Prop where
  spares : depot.SparesMerges
  all : ∀ earlier ∈ done, earlier.isRepeatedMerge = false →
    Has depot (treePath root earlier.target) earlier.revision

theorem HasAll.change {done : List Operation} {unchanged : Bool} (has : HasAll root done depot)
    (changed : change root operation depot = (.ok unchanged, after)) :
    HasAll root (done ++ [operation]) after := by
  obtain ⟨spares, all⟩ := has
  rcases change_eq_ok_iff.mp changed with
    ⟨repeated, _, rfl⟩ | ⟨nickname, outcome, _, merged, _⟩ | ⟨_, _, made⟩
  · refine ⟨spares, List.forall_mem_append.mpr ⟨all, List.forall_mem_singleton.mpr ?_⟩⟩
    intro impossible
    rw [repeated] at impossible
    cases impossible
  · refine ⟨spares.merge merged, List.forall_mem_append.mpr ⟨?_, ?_⟩⟩
    · exact fun earlier member works => (all earlier member works).merge spares merged
    · exact List.forall_mem_singleton.mpr fun _ => has_of_merge spares merged
  · refine ⟨spares.checkout made, List.forall_mem_append.mpr ⟨?_, ?_⟩⟩
    · exact fun earlier member works => (all earlier member works).checkout made
    · exact List.forall_mem_singleton.mpr fun _ => has_of_checkout made

/-- A repeated merge that a run comes to is of a place and a revision that an operation before it
has brought in.  Where an operation on the same tree has, the revision is in the history of the
tree, and to merge it would find nothing to do and change nothing. -/
theorem known_of_repeated {tree : Tree Pinned} {operations : List Operation}
    (planned : Plan.ofTree tree = .ok operations) {token : Token} {observer : Observer Depot}
    (keeps : observer.KeepsStore) {world there : World Depot}
    (reached : Depot.Reached (fun id => ∀ number, id ≠ Depot.mergeId number) world.store)
    {done : List Operation}
    (comes : Comes Depot.backend token root observer operations world done operation there)
    (repeated : operation.isRepeatedMerge = true) :
    (∃ earlier ∈ done, earlier.isRepeatedMerge = false ∧ earlier.branch = operation.branch ∧
      earlier.revision = operation.revision) ∧
    ∀ earlier ∈ done, earlier.isRepeatedMerge = false → earlier.revision = operation.revision →
      earlier.target = operation.target →
      ∃ tree, there.store.tree? (treePath root operation.target) = some tree ∧
        operation.revision ∈ there.store.history.ancestors tree.head ∧
        (there.store.Reaches operation.branch → ∀ message,
          Depot.merge (treePath root operation.target) operation.branch operation.revision message
            there.store = (.ok .upToDate, there.store)) := by
  obtain ⟨later, plan⟩ := comes.planned
  obtain ⟨entries, ran⟩ := comes.changes keeps
  constructor
  · have turns := Plan.ofTree_repeats planned
    rw [plan] at turns
    obtain ⟨earlier, member, works, same⟩ := turns.at_middle repeated
    obtain ⟨branch, revision⟩ := Prod.mk.inj same
    exact ⟨earlier, member, works, branch, revision⟩
  · intro earlier member works revision target
    have start : HasAll root [] world.store :=
      ⟨reached.sparesMerges fun _ allowed => allowed, List.forall_mem_nil _⟩
    have has := (changes_keeps (fun done operation _ depot unchanged later has changed =>
      HasAll.change has changed) ran start).all earlier member works
    rw [revision, target] at has
    obtain ⟨tree, found, known⟩ := has.2
    exact ⟨tree, found, known, fun reaches message => has.merge_eq reaches message⟩

/-- The base merged into itself, and into a nested tree. -/
def repeatingTree : Tree Pinned :=
  ⟨⟨⟨"base", .tip⟩, "b1"⟩, .step "again" .merge ⟨⟨"base", .tip⟩, "b1"⟩ .done
    (.step "doc" (.nest "doc") ⟨⟨"docs", .tip⟩, "d1"⟩
      (.step "here" .merge ⟨⟨"base", .tip⟩, "b1"⟩ .done .done) .done)⟩

def repeatingOperations : List Operation :=
  [⟨.checkout, "base", "b1", ⟨""⟩, 0⟩, ⟨.merge "again" true, "base", "b1", ⟨""⟩, 0⟩,
    ⟨.nest "doc" "doc", "docs", "d1", ⟨"doc"⟩, 0⟩, ⟨.merge "here" true, "base", "b1", ⟨"doc"⟩, 1⟩]

def repeatingDepot : Depot :=
  (Depot.empty.commit "base" "b1" ⟨0, 0⟩ [("README", "1")]).commit "docs" "d1" ⟨5, 0⟩ [("index", "2")]

/-- What a run of the plan makes of the depot before operation number `count`. -/
def repeatingWorld (count : Nat) : World Depot :=
  (runFrom Depot.backend ⟨0, none⟩ ⟨"out"⟩ .silent 4 0 (repeatingOperations.take count)
    (.initial repeatingDepot)).2

theorem known_of_repeated_repeatingTree :
    ∃ tree, (repeatingWorld 1).store.tree? ⟨"out"⟩ = some tree ∧
      "b1" ∈ (repeatingWorld 1).store.history.ancestors tree.head := by
  have planned : Plan.ofTree repeatingTree = .ok repeatingOperations := by decide +kernel
  have ran : (runFrom Depot.backend ⟨0, none⟩ ⟨"out"⟩ .silent 4 0 (repeatingOperations.take 1)
      (.initial repeatingDepot)).1 =
        .ok [⟨.checkout, "base", none, "b1", Path.onSystem ⟨""⟩, none, 0, false⟩] := by decide +kernel
  have comes : Comes Depot.backend ⟨0, none⟩ ⟨"out"⟩ .silent repeatingOperations
      (.initial repeatingDepot) (repeatingOperations.take 1)
      ⟨.merge "again" true, "base", "b1", ⟨""⟩, 0⟩ (repeatingWorld 1) :=
    comes_of_runFrom rfl (Prod.ext ran rfl) (by decide +kernel)
  obtain ⟨tree, found, known, _⟩ := (known_of_repeated planned (fun _ _ => rfl)
    (.commit (.commit .empty "base" (Depot.ne_mergeId (by decide)) ⟨0, 0⟩ _) "docs"
      (Depot.ne_mergeId (by decide)) ⟨5, 0⟩ _) comes rfl).2
        ⟨.checkout, "base", "b1", ⟨""⟩, 0⟩ List.mem_cons_self rfl rfl rfl
  exact ⟨tree, found, known⟩

/-- In a nested tree the revision may be missing: the merge is left out, and is not one that would
have found nothing to do. -/
theorem not_known_of_repeated_in_nest :
    Plan.ofTree repeatingTree = .ok repeatingOperations ∧
      ∃ operation there,
        Comes Depot.backend ⟨0, none⟩ ⟨"out"⟩ .silent repeatingOperations (.initial repeatingDepot)
          (repeatingOperations.take 3) operation there ∧
        operation.action = .merge "here" true ∧
        ∃ tree, there.store.tree? (treePath ⟨"out"⟩ operation.target) = some tree ∧
          operation.revision ∉ there.store.history.ancestors tree.head ∧
          (Depot.merge (treePath ⟨"out"⟩ operation.target) operation.branch operation.revision
            "Merge here" there.store).1 ≠ .ok .upToDate := by
  have planned : Plan.ofTree repeatingTree = .ok repeatingOperations := by decide +kernel
  have ran : (runFrom Depot.backend ⟨0, none⟩ ⟨"out"⟩ .silent 4 0 (repeatingOperations.take 3)
      (.initial repeatingDepot)).1 =
        .ok [⟨.checkout, "base", none, "b1", Path.onSystem ⟨""⟩, none, 0, false⟩,
          ⟨.merge, "base", some "again", "b1", Path.onSystem ⟨""⟩, none, 0, true⟩,
          ⟨.nest, "docs", some "doc", "d1", Path.onSystem ⟨"doc"⟩, some "doc", 0, false⟩] := by
    decide +kernel
  have comes : Comes Depot.backend ⟨0, none⟩ ⟨"out"⟩ .silent repeatingOperations
      (.initial repeatingDepot) (repeatingOperations.take 3)
      ⟨.merge "here" true, "base", "b1", ⟨"doc"⟩, 1⟩ (repeatingWorld 3) :=
    comes_of_runFrom rfl (Prod.ext ran rfl) (by decide +kernel)
  have found : (repeatingWorld 3).store.tree? ⟨"out/doc"⟩ =
      some ⟨"docs", "d1", ⟨[("index", "2")]⟩⟩ := by decide +kernel
  have unknown : "b1" ∉ (repeatingWorld 3).store.history.ancestors "d1" := by
    rw [History.ancestors_of_parents_eq_nil (by decide +kernel)]
    decide
  refine ⟨planned, _, _, comes, rfl, _, found, unknown, fun answer => ?_⟩
  obtain ⟨_, tree, theirs, here, _, ⟨known, _⟩ | ⟨_, impossible, _⟩⟩ :=
    Depot.merge_eq_ok_iff.mp (Prod.ext answer rfl)
  · cases found.symm.trans here
    exact unknown known
  · cases impossible

end Run

end SourceRecipe
