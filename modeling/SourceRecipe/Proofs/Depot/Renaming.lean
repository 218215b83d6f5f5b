import Mathlib.Data.List.Basic
import SourceRecipe.Proofs.Depot.Reached

/-!
# Depots under other ids

What a merge does depends on the ids of commits only in so far as they are told apart.  Where one
depot has the commits of another one under other ids, an operation that succeeds on the first one
succeeds in the same way on the second, and leaves the two in the same relation.
-/

namespace SourceRecipe

def Commit.rename (f : String → String) (commit : Commit) : Commit :=
  { commit with parents := commit.parents.map f }

def WorkingTree.rename (f : String → String) (tree : WorkingTree) : WorkingTree :=
  { tree with head := f tree.head }

namespace History

/-- Whether a history has the commits of another one under other ids. -/
def Renames (f : String → String) (history other : History) : Prop :=
  ∀ revision, other.get? (f revision) = (history.get? revision).map (Commit.rename f)

variable {f : String → String} {history other : History}

theorem Renames.parents (renames : Renames f history other) (revision : String) :
    other.parents (f revision) = (history.parents revision).map f := by
  rw [History.parents, History.parents, renames revision]
  cases history.get? revision with
  | none => rfl
  | some commit => rfl

/-- A walk under other ids goes the same way. -/
theorem Renames.walk (injective : Function.Injective f) (renames : Renames f history other)
    {wanted wanted' : String → Bool} (same : ∀ revision, wanted' (f revision) = wanted revision)
    (seen queue : List String) :
    other.walk wanted' (seen.map f) (queue.map f) =
      ⟨(history.walk wanted seen queue).found.map f, (history.walk wanted seen queue).seen.map f⟩ := by
  fun_induction History.walk history wanted seen queue with
  | case1 seen =>
      rw [List.map_nil, History.walk]
      rfl
  | case2 seen next others found =>
      rw [List.map_cons, History.walk, same, if_pos found]
      rfl
  | case3 seen next others unwanted known ih =>
      rw [List.map_cons, History.walk, same, if_neg unwanted, if_pos (List.mem_map_of_mem known), ih]
  | case4 seen next others unwanted new ih =>
      have unseen : f next ∉ seen.map f := fun known =>
        new ((List.mem_map_of_injective injective).mp known)
      rw [List.map_cons, History.walk, same, if_neg unwanted, if_neg unseen, renames.parents,
        ← List.map_cons, ← List.map_append, ih]

theorem Renames.ancestors (injective : Function.Injective f) (renames : Renames f history other)
    (revision : String) : other.ancestors (f revision) = (history.ancestors revision).map f := by
  have walked := @Renames.walk f history other injective renames (fun _ => false) (fun _ => false)
    (fun _ => rfl) [] [revision]
  exact congrArg Walk.seen walked

theorem Renames.mem_ancestors_iff (injective : Function.Injective f)
    (renames : Renames f history other) {revision ancestor : String} :
    f ancestor ∈ other.ancestors (f revision) ↔ ancestor ∈ history.ancestors revision := by
  rw [renames.ancestors injective, List.mem_map_of_injective injective]

theorem Renames.mergeBase? (injective : Function.Injective f) (renames : Renames f history other)
    (ours theirs : String) :
    other.mergeBase? (f ours) (f theirs) = (history.mergeBase? ours theirs).map f := by
  have same (revision : String) : decide (f revision ∈ other.ancestors (f ours)) =
      decide (revision ∈ history.ancestors ours) :=
    decide_eq_decide.mpr (renames.mem_ancestors_iff injective)
  exact congrArg Walk.found (renames.walk injective same [] [theirs])

theorem Renames.put (injective : Function.Injective f) (renames : Renames f history other)
    (id : String) (commit : Commit) :
    Renames f (history.put id commit) (other.put (f id) (commit.rename f)) := by
  intro revision
  rw [Dict.get?_put, Dict.get?_put, renames]
  by_cases same : id = revision
  · rw [if_pos same, if_pos (congrArg f same)]
    rfl
  · rw [if_neg same, if_neg fun that => same (injective that)]

end History

namespace Depot

/-- Whether a depot has the branches of another one, and its commits under other ids. -/
structure Renames (f : String → String) (depot other : Depot) : Prop where
  history : depot.history.Renames f other.history
  branches : other.branches = depot.branches
  failures : other.failures = depot.failures

namespace Renames

variable {f : String → String} {depot other after : Depot} {revision : String}

theorem stored (renames : Renames f depot other) {commit : Commit}
    (kept : depot.stored revision = .ok commit) :
    other.stored (f revision) = .ok (commit.rename f) := by
  rw [stored_eq_ok_iff] at kept ⊢
  rw [renames.history, kept]
  rfl

theorem commonFiles (injective : Function.Injective f) (renames : Renames f depot other)
    {ours theirs : String} {files : Files} (common : depot.commonFiles ours theirs = .ok files) :
    other.commonFiles (f ours) (f theirs) = .ok files := by
  rw [Depot.commonFiles] at common ⊢
  rw [renames.history.mergeBase? injective]
  cases nearest : depot.history.mergeBase? ours theirs with
  | none =>
      rw [nearest] at common
      exact common
  | some base =>
      simp only [nearest] at common
      cases kept : depot.stored base with
      | error fault =>
          rw [kept] at common
          cases common
      | ok commit =>
          rw [kept] at common
          cases common
          simp only [Option.map_some, renames.stored kept]
          rfl

theorem reaches (renames : Renames f depot other) {branch : String} (reaches : depot.Reaches branch) :
    other.Reaches branch := by
  rw [Reaches, renames.failures]
  exact reaches

/-- A checkout of a revision that keeps its id makes the same tree wherever there is none. -/
theorem checkout (renames : Renames f depot other) (old : f revision = revision) {branch : String}
    {path path' : Path} (free : other.tree? path' = none) {answer : Unit}
    (made : Depot.checkout branch revision path depot = (.ok answer, after)) :
    ∃ tree : WorkingTree, tree.rename f = tree ∧
      after = { depot with trees := depot.trees.put path.parts tree } ∧
      Depot.checkout branch revision path' other =
        (.ok answer, { other with trees := other.trees.put path'.parts tree }) := by
  obtain ⟨reaches, _, revisions, commit, line, member, kept, rfl⟩ := checkout_eq_ok_iff.mp made
  have keptThere := renames.stored kept
  rw [old] at keptThere
  have lineThere : other.line branch = .ok revisions := by
    rw [Depot.line, renames.branches]
    exact line
  refine ⟨⟨branch, revision, commit.files⟩, ?_, rfl, ?_⟩
  · rw [WorkingTree.rename, old]
  · exact checkout_eq_ok_iff.mpr ⟨renames.reaches reaches, free, revisions, _, lineThere, member,
      keptThere, rfl⟩

/-- A merge of a revision that keeps its id finds nothing to do in both depots, or commits the same
merge to both. -/
theorem merge (injective : Function.Injective f) (renames : Renames f depot other)
    (old : f revision = revision) {branch message : String} {path path' : Path} {tree : WorkingTree}
    (found : depot.tree? path = some tree) (foundThere : other.tree? path' = some (tree.rename f))
    {outcome : MergeOutcome}
    (merged : Depot.merge path branch revision message depot = (.ok outcome, after)) :
    outcome = .upToDate ∧ after = depot ∧
        Depot.merge path' branch revision message other = (.ok outcome, other) ∨
      ∃ commit, after = depot.withMerge path tree.branch commit ∧
        Depot.merge path' branch revision message other =
          (.ok outcome, other.withMerge path' tree.branch (commit.rename f)) := by
  obtain ⟨reaches, stands, theirs, standing, kept, rest⟩ := merge_eq_ok_iff.mp merged
  cases found.symm.trans standing
  have keptThere := renames.stored kept
  rw [old] at keptThere
  have known : revision ∈ other.history.ancestors (f tree.head) ↔
      revision ∈ depot.history.ancestors tree.head := by
    rw [← renames.history.mem_ancestors_iff injective, old]
  rcases rest with ⟨member, rfl, rfl⟩ | ⟨unknown, rfl, base, head, common, agrees, ours, rfl⟩
  · refine .inl ⟨rfl, rfl, merge_eq_ok_iff.mpr
      ⟨renames.reaches reaches, _, _, foundThere, keptThere, ?_⟩⟩
    exact .inl ⟨known.mpr member, rfl, rfl⟩
  · have commonThere := renames.commonFiles injective common
    rw [old] at commonThere
    refine .inr ⟨_, rfl, merge_eq_ok_iff.mpr
      ⟨renames.reaches reaches, _, _, foundThere, keptThere, ?_⟩⟩
    refine .inr ⟨mt known.mp unknown, rfl, base, head.rename f, commonThere, agrees,
      renames.stored ours, ?_⟩
    rw [Commit.rename, List.map_cons, List.map_singleton, old]
    rfl

theorem withMerge (injective : Function.Injective f) (renames : Renames f depot other)
    (next : f (mergeId (depot.merges + 1)) = mergeId (other.merges + 1)) (path path' : Path)
    (branch : String) (commit : Commit) :
    Renames f (depot.withMerge path branch commit)
      (other.withMerge path' branch (commit.rename f)) := by
  refine ⟨?_, renames.branches, renames.failures⟩
  rw [Depot.withMerge, Depot.withMerge, ← next]
  exact renames.history.put injective _ _

end Renames

/-! ## Later numbers for merges -/

open Classical in
/-- The id of a commit where the merges after number `last` have numbers that are greater by `add`.
-/
noncomputable def shifted (last add : Nat) (id : String) : String :=
  if merge : ∃ number, last < number ∧ id = mergeId number then mergeId (merge.choose + add) else id

theorem shifted_mergeId {last number : Nat} (new : last < number) (add : Nat) :
    shifted last add (mergeId number) = mergeId (number + add) := by
  have merge : ∃ other, last < other ∧ mergeId number = mergeId other := ⟨number, new, rfl⟩
  rw [shifted, dif_pos merge, ← mergeId_inj.mp merge.choose_spec.2]

theorem shifted_of_ne {last : Nat} {id : String} (old : ∀ number, last < number → id ≠ mergeId number)
    (add : Nat) : shifted last add id = id := by
  rw [shifted, dif_neg]
  rintro ⟨number, new, same⟩
  exact old number new same

theorem shifted_injective (last add : Nat) : Function.Injective (shifted last add) := by
  have either (id : String) : (∃ number, last < number ∧ id = mergeId number) ∨
      ∀ number, last < number → id ≠ mergeId number := by
    by_cases merge : ∃ number, last < number ∧ id = mergeId number
    · exact .inl merge
    · exact .inr fun number new same => merge ⟨number, new, same⟩
  intro id other same
  rcases either id with ⟨number, new, rfl⟩ | old
  · rcases either other with ⟨another, newToo, rfl⟩ | otherOld
    · rw [shifted_mergeId new, shifted_mergeId newToo, mergeId_inj] at same
      rw [Nat.add_right_cancel same]
    · rw [shifted_mergeId new, shifted_of_ne otherOld] at same
      exact absurd same.symm (otherOld _ (Nat.lt_add_right add new))
  · rcases either other with ⟨number, new, rfl⟩ | otherOld
    · rw [shifted_of_ne old, shifted_mergeId new] at same
      exact absurd same (old _ (Nat.lt_add_right add new))
    · rw [shifted_of_ne old, shifted_of_ne otherOld] at same
      exact same

/-- A revision that is kept keeps its id where the ids of merges to come are free. -/
theorem shifted_of_keeps {depot : Depot} (spares : depot.SparesMerges) {id : String}
    (kept : depot.Keeps id) (add : Nat) : shifted depot.merges add id = id := by
  exact shifted_of_ne (fun number new => spares.ne_mergeId kept new) add

/-- Whether a depot came from another one by checkouts and merges, as far as its commits go. -/
structure Grown (before after : Depot) : Prop where
  merges : before.merges ≤ after.merges
  branches : after.branches = before.branches
  failures : after.failures = before.failures
  history : ∀ revision, (∀ number, before.merges < number → revision ≠ mergeId number) →
    after.history.get? revision = before.history.get? revision

namespace Grown

variable {before depot after : Depot}

theorem refl (depot : Depot) : Grown depot depot :=
  ⟨Nat.le_refl _, rfl, rfl, fun _ _ => rfl⟩

theorem revisions (grown : Grown before after) (branch : String) :
    after.revisions branch = before.revisions branch := by
  rw [Depot.revisions, Depot.revisions, grown.branches]

theorem reaches (grown : Grown before after) {branch : String} (reaches : before.Reaches branch) :
    after.Reaches branch := by
  rw [Reaches, grown.failures]
  exact reaches

/-- A depot that has grown keeps all commits, where the ids of merges to come were free. -/
theorem keptIn (grown : Grown before after) (spares : before.SparesMerges) :
    before.history.KeptIn after.history := by
  intro revision commit kept
  rw [grown.history revision fun number new => spares.ne_mergeId (keeps_of_get? kept) new]
  exact kept

theorem checkout (grown : Grown before depot) {branch revision : String} {path : Path}
    {answer : Unit}
    (made : Depot.checkout branch revision path depot = (.ok answer, after)) : Grown before after := by
  obtain ⟨_, _, _, _, _, _, _, rfl⟩ := checkout_eq_ok_iff.mp made
  exact ⟨grown.merges, grown.branches, grown.failures, grown.history⟩

theorem merge (grown : Grown before depot) {path : Path} {branch revision message : String}
    {outcome : MergeOutcome}
    (merged : Depot.merge path branch revision message depot = (.ok outcome, after)) :
    Grown before after := by
  obtain ⟨_, tree, theirs, _, _, ⟨_, _, rfl⟩ | ⟨_, _, base, head, _, _, _, rfl⟩⟩ :=
    merge_eq_ok_iff.mp merged
  · exact grown
  · refine ⟨Nat.le_succ_of_le grown.merges, grown.branches, grown.failures, fun other old => ?_⟩
    have new := old (depot.merges + 1) (Nat.lt_succ_of_le grown.merges)
    rw [Depot.withMerge, Dict.get?_put, if_neg (Ne.symm new)]
    exact grown.history other old

/-- A depot that has grown has the commits of the one it came from, where merges that are still to
come there get numbers that are still to come here. -/
theorem renames (grown : Grown before after) (whole : before.IsWhole) (spares : before.SparesMerges)
    (sparesAfter : after.SparesMerges) :
    Renames (shifted before.merges (after.merges - before.merges)) before after := by
  refine ⟨fun revision => ?_, grown.branches, grown.failures⟩
  by_cases merge : ∃ number, before.merges < number ∧ revision = mergeId number
  · obtain ⟨number, new, rfl⟩ := merge
    have later : after.merges < number + (after.merges - before.merges) := by
      have := grown.merges
      omega
    have unkept := Option.not_isSome_iff_eq_none.mp (spares number new)
    have unkeptAfter := Option.not_isSome_iff_eq_none.mp (sparesAfter _ later)
    rw [shifted_mergeId new, unkept, unkeptAfter]
    rfl
  · have old : ∀ number, before.merges < number → revision ≠ mergeId number :=
      fun number new same => merge ⟨number, new, same⟩
    rw [shifted_of_ne old, grown.history revision old]
    cases kept : before.history.get? revision with
    | none => rfl
    | some commit =>
        have parents : ∀ parent ∈ commit.parents,
            shifted before.merges (after.merges - before.merges) parent = parent := by
          intro parent above
          refine shifted_of_keeps spares (whole.parents revision parent ?_) _
          rw [History.parents, kept]
          exact above
        rw [Option.map_some, Commit.rename, List.map_congr_left parents, List.map_id']

end Grown

end Depot

end SourceRecipe
