import SourceRecipe.Proofs.Build.Places
import SourceRecipe.Proofs.Depot.Renaming

/-!
# The same operations below another root

Operations that a depot has gone through below one root go through once more below another root
where nothing stands, and come to the same entries and the same trees.  The ids of the merges are
other ones; all else that the second run meets is as the first run found it.
-/

namespace SourceRecipe.Run

/-! ## Trees and their copies -/

/-- Whether the trees that some operations have made below `root` stand below `elsewhere` too, with
heads under other ids, and else nothing differs from `origin`. -/
structure Copies (f : String → String) (root elsewhere : Path) (origin : Depot) (done : List Operation)
    (depot copy : Depot) : Prop where
  inside : ∀ earlier ∈ done, earlier.IsInside
  placed : ∀ earlier ∈ done, Plan.IsMade done earlier.target.parts
  made : ∀ earlier ∈ done, ∃ tree, depot.tree? (treePath root earlier.target) = some tree ∧
    copy.tree? (treePath elsewhere earlier.target) = some (tree.rename f)
  rest : ∀ path, (∀ earlier ∈ done, (treePath elsewhere earlier.target).parts ≠ path.parts) →
    copy.tree? path = origin.tree? path

namespace Copies

variable {f : String → String} {root elsewhere : Path} {origin depot copy after copyAfter : Depot}
  {done : List Operation} {operation : Operation}

theorem start (depot : Depot) (trees : copy.trees = origin.trees) :
    Copies f root elsewhere origin [] depot copy :=
  ⟨List.forall_mem_nil _, List.forall_mem_nil _, List.forall_mem_nil _,
    fun path _ => congrArg (·.get? path.parts) trees⟩

/-- A merge goes into a tree that stands, and finds the copy of it below the other root. -/
theorem of_merge (copies : Copies f root elsewhere origin done depot copy)
    (inside : operation.IsInside) (stands : Plan.IsMade done operation.target.parts) :
    ∃ tree, depot.tree? (treePath root operation.target) = some tree ∧
      copy.tree? (treePath elsewhere operation.target) = some (tree.rename f) := by
  obtain ⟨earlier, member, _, same⟩ := stands
  rw [← (copies.inside earlier member).target_eq inside same]
  exact copies.made earlier member

/-- Where no tree has been made yet there is no copy of one. -/
theorem free (copies : Copies f root elsewhere origin done depot copy)
    (empty : ∀ path : Path, elsewhere.parts <+: path.parts → origin.tree? path = none)
    (inside : operation.IsInside) (new : ¬ Plan.IsMade done operation.target.parts) :
    copy.tree? (treePath elsewhere operation.target) = none := by
  rw [copies.rest]
  · obtain ⟨names, areNames, target⟩ := inside
    rw [target]
    exact empty _ ⟨_, (parts_treePath areNames).symm⟩
  · intro earlier member same
    refine new ?_
    rw [← target_eq_of_parts (copies.inside earlier member) inside same]
    exact copies.placed earlier member

/-- An operation that finds nothing to do leaves trees and copies as they are. -/
theorem keep (copies : Copies f root elsewhere origin done depot copy)
    (inside : operation.IsInside) (stands : Plan.IsMade done operation.target.parts) :
    Copies f root elsewhere origin (done ++ [operation]) depot copy := by
  refine ⟨?_, ?_, ?_, fun path free => copies.rest path (List.forall_mem_append.mp free).1⟩
  · exact List.forall_mem_append.mpr ⟨copies.inside, List.forall_mem_singleton.mpr inside⟩
  · refine List.forall_mem_append.mpr ⟨fun earlier member => ?_, List.forall_mem_singleton.mpr ?_⟩
    · exact Plan.isMade_append.mpr (.inl (copies.placed earlier member))
    · exact Plan.isMade_append.mpr (.inl stands)
  · exact List.forall_mem_append.mpr
      ⟨copies.made, List.forall_mem_singleton.mpr (copies.of_merge inside stands)⟩

/-- An operation that puts the same tree below both roots keeps trees and copies alike. -/
theorem put (copies : Copies f root elsewhere origin done depot copy) (inside : operation.IsInside)
    (stands : Plan.IsMade (done ++ [operation]) operation.target.parts) {tree : WorkingTree}
    (trees : after.trees = depot.trees.put (treePath root operation.target).parts tree)
    (copied : copyAfter.trees =
      copy.trees.put (treePath elsewhere operation.target).parts (tree.rename f)) :
    Copies f root elsewhere origin (done ++ [operation]) after copyAfter := by
  refine ⟨?_, ?_, ?_, fun path free => ?_⟩
  · exact List.forall_mem_append.mpr ⟨copies.inside, List.forall_mem_singleton.mpr inside⟩
  · refine List.forall_mem_append.mpr ⟨fun earlier member => ?_, List.forall_mem_singleton.mpr stands⟩
    exact Plan.isMade_append.mpr (.inl (copies.placed earlier member))
  · refine List.forall_mem_append.mpr ⟨fun earlier member => ?_, List.forall_mem_singleton.mpr ?_⟩
    · by_cases same : earlier.target = operation.target
      · refine ⟨tree, ?_, ?_⟩
        · rw [same, Depot.tree?, trees, Dict.get?_put_self]
        · rw [same, Depot.tree?, copied, Dict.get?_put_self]
      · have differ (other : Path) : (treePath other operation.target).parts ≠
            (treePath other earlier.target).parts := fun parts =>
          same (target_eq_of_parts inside (copies.inside earlier member) parts).symm
        obtain ⟨other, found, copied'⟩ := copies.made earlier member
        refine ⟨other, ?_, ?_⟩
        · rw [Depot.tree?, trees, Dict.get?_put, if_neg (differ root)]
          exact found
        · rw [Depot.tree?, copied, Dict.get?_put, if_neg (differ elsewhere)]
          exact copied'
    · exact ⟨tree, by rw [Depot.tree?, trees, Dict.get?_put_self],
        by rw [Depot.tree?, copied, Dict.get?_put_self]⟩
  · obtain ⟨others, own⟩ := List.forall_mem_append.mp free
    rw [Depot.tree?, copied, Dict.get?_put, if_neg (own operation List.mem_cons_self)]
    exact copies.rest path others

end Copies

/-! ## Runs -/

/-- Whether a depot has gone below `elsewhere` through what another one has gone through below
`root`. Of the merges of both, the one has those after number `last` under numbers greater by `add`.
-/
structure Follows (last add : Nat) (root elsewhere : Path) (origin : Depot) (done : List Operation)
    (depot copy : Depot) : Prop where
  renames : depot.Renames (Depot.shifted last add) copy
  later : last ≤ depot.merges
  merges : copy.merges = depot.merges + add
  copies : Copies (Depot.shifted last add) root elsewhere origin done depot copy

namespace Follows

variable {last add : Nat} {root elsewhere : Path} {origin depot copy after : Depot}
  {done operations : List Operation} {operation : Operation}

/-- An operation that has succeeded below the one root succeeds below the other one in the same way.
-/
theorem change (follows : Follows last add root elsewhere origin done depot copy)
    (empty : ∀ path : Path, elsewhere.parts <+: path.parts → origin.tree? path = none)
    (inside : operation.IsInside) (fits : Plan.Fits done operation)
    (old : Depot.shifted last add operation.revision = operation.revision) {unchanged : Bool}
    (changed : change root operation depot = (.ok unchanged, after)) :
    ∃ copyAfter, Run.change elsewhere operation copy = (.ok unchanged, copyAfter) ∧
      Follows last add root elsewhere origin (done ++ [operation]) after copyAfter := by
  obtain ⟨renames, later, merges, copies⟩ := follows
  have stands (notMakes : ¬ operation.Makes) : Plan.IsMade done operation.target.parts :=
    not_not.mp (mt fits.mpr notMakes)
  rcases change_eq_ok_iff.mp changed with
    ⟨repeated, rfl, rfl⟩ | ⟨nickname, outcome, action, merged, rfl⟩ | ⟨makes, rfl, made⟩
  · obtain ⟨nickname, action⟩ := Operation.exists_merge_of_repeated repeated
    exact ⟨copy, change_eq_ok_iff.mpr (.inl ⟨repeated, rfl, rfl⟩), renames, later, merges,
      copies.keep inside (stands (Operation.not_makes_of_merge action))⟩
  · have goesInto := stands (Operation.not_makes_of_merge action)
    obtain ⟨tree, found, foundThere⟩ := copies.of_merge inside goesInto
    rcases renames.merge (Depot.shifted_injective last add) old found foundThere merged with
      ⟨rfl, rfl, mergedThere⟩ | ⟨commit, rfl, mergedThere⟩
    · exact ⟨copy, change_eq_ok_iff.mpr (.inr (.inl ⟨nickname, _, action, mergedThere, rfl⟩)), renames,
        later, merges, copies.keep inside goesInto⟩
    · have next : Depot.shifted last add (Depot.mergeId (depot.merges + 1)) =
          Depot.mergeId (copy.merges + 1) := by
        rw [Depot.shifted_mergeId (Nat.lt_succ_of_le later), merges, Nat.add_right_comm]
      refine ⟨_, change_eq_ok_iff.mpr (.inr (.inl ⟨nickname, outcome, action, mergedThere, rfl⟩)),
        renames.withMerge (Depot.shifted_injective last add) next _ _ _ _, Nat.le_succ_of_le later, ?_,
        copies.put inside (Plan.isMade_append.mpr (.inl goesInto)) rfl ?_⟩
      · rw [Depot.withMerge, Depot.withMerge, merges, Nat.add_right_comm]
      · rw [WorkingTree.rename, next]
        rfl
  · have new := copies.free empty inside (fits.mp makes)
    obtain ⟨tree, same, rfl, madeThere⟩ := renames.checkout old new made
    refine ⟨_, change_eq_ok_iff.mpr (.inr (.inr ⟨makes, rfl, madeThere⟩)), ⟨renames.history,
      renames.branches, renames.failures⟩, later, merges, copies.put inside ?_ rfl ?_⟩
    · exact Plan.isMade_concat.mpr (.inr ⟨makes, rfl⟩)
    · rw [same]

/-- Operations that have gone through below the one root go through below the other one, with the
same entries. -/
theorem changes (follows : Follows last add root elsewhere origin done depot copy)
    (empty : ∀ path : Path, elsewhere.parts <+: path.parts → origin.tree? path = none)
    (inside : ∀ operation ∈ operations, operation.IsInside)
    (fits : Plan.InTurn Plan.Fits done operations)
    (old : ∀ operation ∈ operations, Depot.shifted last add operation.revision = operation.revision)
    {entries : List ManifestEntry}
    (ran : changes root operations depot = (.ok entries, after)) :
    ∃ copyAfter, Run.changes elsewhere operations copy = (.ok entries, copyAfter) ∧
      Follows last add root elsewhere origin (done ++ operations) after copyAfter := by
  induction operations generalizing done depot copy entries with
  | nil =>
      obtain ⟨rfl, rfl⟩ := run_pure_eq_ok_iff.mp ran
      rw [List.append_nil]
      exact ⟨copy, rfl, follows⟩
  | cons operation others ih =>
      obtain ⟨unchanged, between, rest, changed, later, rfl⟩ := changes_cons_eq_ok_iff.mp ran
      rw [List.forall_mem_cons] at inside old
      obtain ⟨copyBetween, changedThere, follows⟩ :=
        follows.change empty inside.1 fits.1 old.1 changed
      obtain ⟨copyAfter, laterThere, follows⟩ := ih follows inside.2 fits.2 old.2 later
      rw [List.append_cons]
      exact ⟨copyAfter, changes_cons_eq_ok_iff.mpr
        ⟨unchanged, copyBetween, rest, changedThere, laterThere, rfl⟩, follows⟩

end Follows

theorem grown_of_changes {root : Path} {operations : List Operation} {depot after : Depot}
    {entries : List ManifestEntry} (ran : changes root operations depot = (.ok entries, after)) :
    depot.Grown after :=
  changes_invariant (fun _ _ _ _ _ grown made => Depot.Grown.checkout grown made)
    (fun _ _ _ _ _ _ _ grown merged => grown.merge merged) ran (.refl depot)

/-- What operations made of a depot they make of it once more below a root where nothing stands, as
long as all their revisions were kept at first. -/
theorem changes_again {root elsewhere : Path} {operations : List Operation} {depot after : Depot}
    {entries : List ManifestEntry} (whole : depot.IsWhole) (spares : depot.SparesMerges)
    (fits : Plan.InTurn Plan.Fits [] operations)
    (inside : ∀ operation ∈ operations, operation.IsInside)
    (kept : ∀ operation ∈ operations, depot.Keeps operation.revision)
    (ran : changes root operations depot = (.ok entries, after)) (count : Nat)
    (empty : ∀ path : Path, elsewhere.parts <+: path.parts → after.tree? path = none) :
    ∃ f copy, changes elsewhere operations { after with lookups := count } = (.ok entries, copy) ∧
      Copies f root elsewhere after operations after copy := by
  have grown := grown_of_changes ran
  have sparesAfter := changes_invariant
    (fun _ _ _ _ _ spares made => Depot.SparesMerges.checkout spares made)
    (fun _ _ _ _ _ _ _ spares merged => spares.merge merged) ran spares
  obtain ⟨history, branches, failures⟩ := grown.renames whole spares sparesAfter
  have follows : Follows depot.merges (after.merges - depot.merges) root elsewhere after [] depot
      { after with lookups := count } :=
    ⟨⟨history, branches, failures⟩, Nat.le_refl _, (Nat.add_sub_cancel' grown.merges).symm,
      Copies.start depot rfl⟩
  obtain ⟨copy, ranThere, follows⟩ := follows.changes empty inside fits
    (fun operation member => Depot.shifted_of_keeps spares (kept operation member) _) ran
  exact ⟨_, copy, ranThere, follows.copies⟩

end SourceRecipe.Run
