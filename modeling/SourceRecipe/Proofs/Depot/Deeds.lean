import SourceRecipe.Proofs.Depot.Reached

/-!
# Deeds

A depot comes of a list of deeds: commits, branches, tags and calls of any kind.  Where each commit
brings an id of its own and none brings the id of a merge, history is only added to.  A depot makes
up the ids of merges by counting, without a look at what is kept, so a commit that was given the id
of a merge to come is lost when that merge comes.
-/

namespace SourceRecipe.Depot

inductive Deed where
  | commit (branch revision : String) (time : Time.Instant) (changes : List (String × String))
  | branchFrom (branch source : String)
  | setTag (branch tag revision : String)
  | failTimes (branch : String) (times : Nat)
  | lookup (branch : String) (specifier : Specifier)
  | checkout (branch revision : String) (target : Path)
  | merge (path : Path) (branch revision message : String)

/-- What a deed makes of a depot, also where it is a request that fails. -/
def perform (depot : Depot) : Deed → Depot
  | .commit branch revision time changes => depot.commit branch revision time changes
  | .branchFrom branch source => depot.branchFrom branch source
  | .setTag branch tag revision => depot.setTag branch tag revision
  | .failTimes branch times => depot.failTimes branch times
  | .lookup branch specifier => (Depot.lookup branch specifier depot).2
  | .checkout branch revision target => (Depot.checkout branch revision target depot).2
  | .merge path branch revision message => (Depot.merge path branch revision message depot).2

def performAll (depot : Depot) (deeds : List Deed) : Depot :=
  deeds.foldl perform depot

theorem performAll_append (depot : Depot) (first second : List Deed) :
    depot.performAll (first ++ second) = (depot.performAll first).performAll second :=
  List.foldl_append

/-! ## New ids -/

/-- Whether a deed is no commit, or one with an id that is allowed and not kept yet. -/
def Deed.IsFresh (Allows : String → Prop) (depot : Depot) : Deed → Prop
  | commit _ revision _ _ => Allows revision ∧ ¬ depot.Keeps revision
  | _ => True

def AreFresh (Allows : String → Prop) : Depot → List Deed → Prop
  | _, [] => True
  | depot, deed :: others => deed.IsFresh Allows depot ∧ AreFresh Allows (depot.perform deed) others

section

variable {Allows : String → Prop} {depot : Depot} {deed : Deed} {deeds : List Deed}

theorem areFresh_append_iff {first second : List Deed} :
    AreFresh Allows depot (first ++ second) ↔
      AreFresh Allows depot first ∧ AreFresh Allows (depot.performAll first) second := by
  induction first generalizing depot with
  | nil => exact (true_and _).symm.to_iff
  | cons deed others ih => rw [List.cons_append, AreFresh, AreFresh, ih, and_assoc]; rfl

theorem Reached.perform (reached : Reached Allows depot) (fresh : deed.IsFresh Allows depot) :
    Reached Allows (depot.perform deed) := by
  cases deed with
  | commit branch revision time changes => exact reached.commit branch fresh.1 time changes
  | branchFrom branch source => exact reached.branchFrom branch source
  | setTag branch tag revision => exact reached.setTag branch tag revision
  | failTimes branch times => exact reached.failTimes branch times
  | lookup branch specifier => exact reached.lookup branch specifier
  | checkout branch revision target => exact reached.checkout branch revision target
  | merge path branch revision message => exact reached.merge path branch revision message

theorem Reached.performAll (reached : Reached Allows depot) (fresh : AreFresh Allows depot deeds) :
    Reached Allows (depot.performAll deeds) := by
  induction deeds generalizing depot with
  | nil => exact reached
  | cons deed others ih => exact ih (reached.perform fresh.1) fresh.2

end

/-! ## Effects -/

/-- All that a deed can do to the commits, the branches and the trees of a depot. -/
inductive Deed.Effect (depot : Depot) : Deed → Depot → Prop where
  /-- A request that looks or fails, or a note of something else. -/
  | none {deed : Deed} {after : Depot} (history : after.history = depot.history)
      (branches : after.branches = depot.branches) (trees : after.trees = depot.trees)
      (merges : depot.merges ≤ after.merges) : Effect depot deed after
  | branchFrom (branch source : String) :
      Effect depot (.branchFrom branch source) (depot.branchFrom branch source)
  | commit (branch revision : String) (time : Time.Instant) (changes : List (String × String)) :
      Effect depot (.commit branch revision time changes)
        (depot.commit branch revision time changes)
  /-- A tree is made where there is none. -/
  | checkout {branch revision : String} {target : Path} {commit : Commit}
      (free : depot.tree? target = .none) (kept : depot.history.get? revision = some commit) :
      Effect depot (.checkout branch revision target)
        { depot with trees := depot.trees.put target.parts ⟨branch, revision, commit.files⟩ }
  /-- A tree is moved to a merge of its head. -/
  | merge {path : Path} {branch revision message : String} {tree : WorkingTree} {added : Commit}
      (stands : depot.tree? path = some tree) (above : tree.head ∈ added.parents) :
      Effect depot (.merge path branch revision message)
        (depot.withMerge path tree.branch added)

theorem Deed.Effect.of_onlyCounted {depot after : Depot} (deed : Deed)
    (counted : depot.OnlyCounted after) : deed.Effect depot after :=
  .none counted.history counted.branches counted.trees counted.merges

theorem effect_perform (depot : Depot) (deed : Deed) : deed.Effect depot (depot.perform deed) := by
  cases deed with
  | commit branch revision time changes => exact .commit branch revision time changes
  | branchFrom branch source => exact .branchFrom branch source
  | setTag branch tag revision => exact .none rfl rfl rfl (Nat.le_refl _)
  | failTimes branch times => exact .none rfl rfl rfl (Nat.le_refl _)
  | lookup branch specifier => exact .of_onlyCounted _ (lookup_onlyCounted branch specifier depot)
  | checkout branch revision target =>
      rw [perform]
      rcases asked : Depot.checkout branch revision target depot with ⟨result, after⟩
      cases result with
      | error fault => exact .of_onlyCounted _ (checkout_eq_error asked).1
      | ok made =>
          obtain ⟨_, free, _, _, _, _, kept, rfl⟩ := checkout_eq_ok_iff.mp asked
          exact .checkout free (stored_eq_ok_iff.mp kept)
  | merge path branch revision message =>
      rw [perform]
      rcases asked : Depot.merge path branch revision message depot with ⟨result, after⟩
      cases result with
      | error fault => exact .of_onlyCounted _ (merge_eq_error asked).1
      | ok outcome =>
          obtain ⟨_, tree, theirs, stands, _, ⟨_, _, rfl⟩ | ⟨_, _, base, head, _, _, _, rfl⟩⟩ :=
            merge_eq_ok_iff.mp asked
          · exact .of_onlyCounted _ (.refl _)
          · exact .merge stands List.mem_cons_self

/-- A branch has the same revisions after a deed that does not name it as the one to commit to or to
begin. -/
theorem Deed.Effect.revisions {depot after : Depot} {deed : Deed} {branch : String}
    (effect : deed.Effect depot after)
    (uncommitted : ∀ id time changes, deed ≠ .commit branch id time changes)
    (still : ∀ source, deed ≠ .branchFrom branch source) :
    after.revisions branch = depot.revisions branch := by
  have elsewhere {other : String} (differs : other ≠ branch) (line : List String) :
      ((depot.branches.put other line).get? branch).getD [] = depot.revisions branch := by
    rw [Dict.get?_put, if_neg differs, Depot.revisions]
  cases effect with
  | none history branches trees merges => rw [Depot.revisions, branches, Depot.revisions]
  | branchFrom other source =>
      refine elsewhere ?_ _
      rintro rfl
      exact still source rfl
  | commit other id time changes =>
      refine elsewhere ?_ _
      rintro rfl
      exact uncommitted id time changes rfl
  | checkout free kept => rfl
  | merge stands above => rfl

/-! ## Commits -/

section

variable {Allows : String → Prop} {depot after : Depot} {deed : Deed} {deeds : List Deed}
  {revision : String} {commit : Commit}

theorem Deed.Effect.merges_le (effect : deed.Effect depot after) : depot.merges ≤ after.merges := by
  cases effect with
  | none history branches trees merges => exact merges
  | branchFrom branch source => exact Nat.le_refl _
  | commit branch revision time changes => exact Nat.le_refl _
  | checkout free kept => exact Nat.le_refl _
  | merge stands above => exact Nat.le_succ _

/-- A commit stays as it is, unless a merge takes its id. -/
theorem Deed.Effect.keeps (effect : deed.Effect depot after) (fresh : deed.IsFresh Allows depot)
    (kept : depot.history.get? revision = some commit) :
    after.history.get? revision = some commit ∨
      ∃ number, depot.merges < number ∧ number ≤ after.merges ∧ revision = mergeId number := by
  cases effect with
  | none history branches trees merges =>
      rw [history]
      exact .inl kept
  | branchFrom branch source => exact .inl kept
  | commit branch id time changes =>
      have other : id ≠ revision := by
        rintro rfl
        exact fresh.2 (keeps_of_get? kept)
      rw [Depot.commit, Dict.get?_put, if_neg other]
      exact .inl kept
  | checkout free stored => exact .inl kept
  | merge stands above =>
      by_cases taken : mergeId (depot.merges + 1) = revision
      · exact .inr ⟨_, Nat.lt_succ_self _, Nat.le_refl _, taken.symm⟩
      · rw [withMerge, Dict.get?_put, if_neg taken]
        exact .inl kept

theorem merges_le_performAll (depot : Depot) (deeds : List Deed) :
    depot.merges ≤ (depot.performAll deeds).merges := by
  induction deeds generalizing depot with
  | nil => exact Nat.le_refl _
  | cons deed others ih => exact Nat.le_trans (effect_perform depot deed).merges_le (ih _)

theorem performAll_keeps (fresh : AreFresh Allows depot deeds)
    (kept : depot.history.get? revision = some commit) :
    (depot.performAll deeds).history.get? revision = some commit ∨
      ∃ number, depot.merges < number ∧ number ≤ (depot.performAll deeds).merges ∧
        revision = mergeId number := by
  induction deeds generalizing depot with
  | nil => exact .inl kept
  | cons deed others ih =>
      have effect := effect_perform depot deed
      rcases effect.keeps fresh.1 kept with still | ⟨number, new, counted, taken⟩
      · refine (ih fresh.2 still).imp_right ?_
        rintro ⟨number, new, counted, taken⟩
        exact ⟨number, Nat.lt_of_le_of_lt effect.merges_le new, counted, taken⟩
      · exact .inr ⟨number, new, Nat.le_trans counted (merges_le_performAll _ others), taken⟩

end

/-! ## Working trees -/

/-- Whether a depot goes on from an earlier one: every commit is kept as it was, and every working
tree stands where it stood, of the same branch and with all of its history. -/
structure Continues (before after : Depot) : Prop where
  history : before.history.KeptIn after.history
  trees : ∀ place tree, before.trees.get? place = some tree →
    ∃ later, after.trees.get? place = some later ∧ later.branch = tree.branch ∧
      before.history.ancestors tree.head ⊆ after.history.ancestors later.head

def HoldsHeads (depot : Depot) : Prop :=
  ∀ place tree, depot.trees.get? place = some tree →
    ∃ commit, depot.history.get? tree.head = some commit ∧ commit.files = tree.files

section

variable {Allows : String → Prop} {before depot after : Depot} {deed : Deed} {deeds : List Deed}

namespace Continues

theorem refl (depot : Depot) : Continues depot depot :=
  ⟨fun _ _ kept => kept, fun _ tree stands => ⟨tree, stands, rfl, List.Subset.refl _⟩⟩

theorem trans (first : before.Continues depot) (second : depot.Continues after) :
    before.Continues after := by
  refine ⟨fun revision commit kept => second.history _ _ (first.history _ _ kept), ?_⟩
  intro place tree stands
  obtain ⟨later, there, branch, grown⟩ := first.trees place tree stands
  obtain ⟨last, here, same, further⟩ := second.trees place later there
  exact ⟨last, here, same.trans branch, List.Subset.trans grown further⟩

/-- A depot with the commits of another one and more goes on from it, if each tree stays where it
is or is moved to a descendant of its head. -/
theorem of_history (history : before.history.KeptIn after.history)
    (trees : ∀ place tree, before.trees.get? place = some tree →
      ∃ later, after.trees.get? place = some later ∧ later.branch = tree.branch ∧
        after.history.Descends later.head tree.head) : before.Continues after := by
  refine ⟨history, fun place tree stands => ?_⟩
  obtain ⟨later, there, branch, descends⟩ := trees place tree stands
  refine ⟨later, there, branch, fun ancestor member => ?_⟩
  have grown := History.mem_ancestors_of_parents history.parents_subset member
  exact History.mem_ancestors_iff.mpr (descends.trans (History.mem_ancestors_iff.mp grown))

end Continues

/-- A fresh deed leaves all that is kept, where the ids of merges to come are free. -/
theorem Deed.Effect.continues (effect : deed.Effect depot after) (spares : depot.SparesMerges)
    (fresh : deed.IsFresh Allows depot) : depot.Continues after := by
  have history : depot.history.KeptIn after.history := by
    intro revision commit kept
    refine (effect.keeps fresh kept).resolve_right ?_
    rintro ⟨number, new, _, taken⟩
    exact spares.ne_mergeId (keeps_of_get? kept) new taken
  refine .of_history history fun place tree stands => ?_
  cases effect with
  | none _ branches trees merges => exact ⟨tree, trees ▸ stands, rfl, .refl⟩
  | branchFrom branch source => exact ⟨tree, stands, rfl, .refl⟩
  | commit branch revision time changes => exact ⟨tree, stands, rfl, .refl⟩
  | @checkout branch revision target commit free kept =>
      have other : target.parts ≠ place := by
        rintro rfl
        cases free.symm.trans stands
      exact ⟨tree, (Dict.get?_put _ _ _ _).trans (by rw [if_neg other, stands]), rfl, .refl⟩
  | @merge path branch revision message moved added found above =>
      by_cases here : path.parts = place
      · subst here
        cases found.symm.trans stands
        refine ⟨_, Dict.get?_put_self _ _ _, rfl, .single ?_⟩
        rw [withMerge, History.parents_put, if_pos rfl]
        exact above
      · exact ⟨tree, (Dict.get?_put _ _ _ _).trans (by rw [if_neg here, stands]), rfl, .refl⟩

/-- A tree that is made or moved has the files of the commit it stands at. -/
theorem Deed.Effect.holdsHeads (effect : deed.Effect depot after)
    (continues : depot.Continues after) (holds : depot.HoldsHeads) : after.HoldsHeads := by
  intro place tree stands
  have still (there : depot.trees.get? place = some tree) :
      ∃ commit, after.history.get? tree.head = some commit ∧ commit.files = tree.files := by
    obtain ⟨commit, kept, same⟩ := holds place tree there
    exact ⟨commit, continues.history _ _ kept, same⟩
  cases effect with
  | none _ branches trees merges => exact still (trees ▸ stands)
  | branchFrom branch source => exact still stands
  | commit branch revision time changes => exact still stands
  | @checkout branch revision target commit free kept =>
      rw [Dict.get?_put] at stands
      split at stands
      · cases stands
        exact ⟨commit, kept, rfl⟩
      · exact still stands
  | @merge path branch revision message moved added found above =>
      rw [withMerge, Dict.get?_put] at stands
      split at stands
      · cases stands
        exact ⟨added, Dict.get?_put_self _ _ _, rfl⟩
      · exact still stands

/-- What some fresh deeds leave of a depot in which the ids of merges to come are free. -/
theorem performAll_continues (spared : ∀ id, Allows id → ∀ number, id ≠ mergeId number)
    (reached : Reached Allows depot) (fresh : AreFresh Allows depot deeds) :
    depot.Continues (depot.performAll deeds) ∧
      (depot.HoldsHeads → (depot.performAll deeds).HoldsHeads) := by
  induction deeds generalizing depot with
  | nil => exact ⟨.refl depot, fun holds => holds⟩
  | cons deed others ih =>
      have effect := effect_perform depot deed
      have continues := effect.continues (reached.sparesMerges spared) fresh.1
      obtain ⟨further, holds⟩ := ih (reached.perform fresh.1) fresh.2
      exact ⟨continues.trans further, fun first => holds (effect.holdsHeads continues first)⟩

end

/-- In a run of deeds whose commits bring ids of their own, a commit that is kept is never changed,
but by a merge that comes to have its id.  Where no commit is given the id of a merge, that does not
happen: all commits are kept as they are, every working tree has the files of its head, and it stays
where it is, with no ancestor lost. -/
theorem history_only_grows {Allows : String → Prop} {first second : List Deed}
    (fresh : AreFresh Allows .empty (first ++ second)) :
    (∀ revision commit, (Depot.empty.performAll first).history.get? revision = some commit →
      (Depot.empty.performAll (first ++ second)).history.get? revision = some commit ∨
        ∃ number, (Depot.empty.performAll first).merges < number ∧
          number ≤ (Depot.empty.performAll (first ++ second)).merges ∧
          revision = mergeId number) ∧
      ((∀ id, Allows id → ∀ number, id ≠ mergeId number) →
        (Depot.empty.performAll first).Continues (Depot.empty.performAll (first ++ second)) ∧
          (Depot.empty.performAll (first ++ second)).HoldsHeads) := by
  have whole := fresh
  rw [areFresh_append_iff] at fresh
  rw [performAll_append]
  refine ⟨fun revision commit kept => performAll_keeps fresh.2 kept, fun spared => ?_⟩
  have reached := Reached.performAll .empty fresh.1
  refine ⟨(performAll_continues spared reached fresh.2).1, ?_⟩
  rw [← performAll_append]
  refine (performAll_continues spared .empty whole).2 fun place tree impossible => ?_
  cases impossible

def lateDeeds (late : String) : List Deed :=
  [.commit "base" "b1" ⟨86400, 0⟩ [("README", "base")],
    .commit "feature" "f1" ⟨172800, 0⟩ [("feature.c", "f")],
    .commit "late" late ⟨259200, 0⟩ [("late.c", "l")],
    .checkout "late" late ⟨"aside"⟩, .checkout "base" "b1" ⟨"out"⟩]

def firstMerge : List Deed :=
  [.merge ⟨"out"⟩ "feature" "f1" "Merge feature"]

theorem areFresh_lateDeeds {Allows : String → Prop} {late : String}
    (allowed : ∀ id ∈ ["b1", "f1", late], Allows id)
    (new : ¬ ((Depot.empty.commit "base" "b1" ⟨86400, 0⟩ [("README", "base")]).commit "feature" "f1"
      ⟨172800, 0⟩ [("feature.c", "f")]).Keeps late) :
    AreFresh Allows .empty (lateDeeds late ++ firstMerge) := by
  simp only [List.forall_mem_cons] at allowed
  obtain ⟨base, feature, last, _⟩ := allowed
  exact ⟨⟨base, fun kept => (by cases kept)⟩, ⟨feature, fun kept => (by cases kept)⟩, ⟨last, new⟩,
    trivial, trivial, trivial, trivial⟩

theorem history_only_grows_lateDeeds :
    (Depot.empty.performAll (lateDeeds "l1")).Continues
        (Depot.empty.performAll (lateDeeds "l1" ++ firstMerge)) ∧
      (Depot.empty.performAll (lateDeeds "l1" ++ firstMerge)).HoldsHeads ∧
      ∃ commit, (Depot.empty.performAll (lateDeeds "l1" ++ firstMerge)).history.get? "l1" =
        some commit ∧ commit.message = "commit l1" := by
  have allowed : ∀ id ∈ ["b1", "f1", "l1"], ∀ number, id ≠ mergeId number := by
    simp only [List.forall_mem_cons]
    exact ⟨ne_mergeId (by decide), ne_mergeId (by decide), ne_mergeId (by decide),
      List.forall_mem_nil _⟩
  obtain ⟨_, kept⟩ := @history_only_grows (fun id => ∀ number, id ≠ mergeId number)
    (lateDeeds "l1") firstMerge (areFresh_lateDeeds allowed fun kept => by cases kept)
  obtain ⟨continues, holds⟩ := kept fun _ spared => spared
  exact ⟨continues, holds, _, continues.history "l1" _ rfl, rfl⟩

/-- The first merge is committed under its own number, also where a commit has that id. -/
theorem performAll_firstMerge :
    ∃ added : Commit, added.message = "Merge feature" ∧ added.files.get? "late.c" = none ∧
      Depot.empty.performAll (lateDeeds "merge-1" ++ firstMerge) =
        (Depot.empty.performAll (lateDeeds "merge-1")).withMerge ⟨"out"⟩ "base" added := by
  have unknown : "f1" ∉ (Depot.empty.performAll (lateDeeds "merge-1")).history.ancestors "b1" := by
    rw [History.ancestors_of_parents_eq_nil rfl, List.mem_singleton]
    decide
  have common :
      (Depot.empty.performAll (lateDeeds "merge-1")).commonFiles "b1" "f1" = .ok .empty := by
    rw [commonFiles, History.mergeBase?_of_parents_eq_nil rfl rfl (by decide)]
  have merged : Depot.merge ⟨"out"⟩ "feature" "f1" "Merge feature"
      (Depot.empty.performAll (lateDeeds "merge-1")) = (.ok .merged, _) :=
    merge_eq_ok_iff.mpr ⟨fun _ impossible => (by cases impossible), ⟨"base", "b1", _⟩, _, rfl, rfl,
      .inr ⟨unknown, rfl, .empty, _, common, by decide +kernel, rfl, rfl⟩⟩
  refine ⟨_, ?_, ?_, (performAll_append _ _ _).trans (congrArg Prod.snd merged)⟩
  · rfl
  · decide +kernel

/-- A commit that was given the id of the merge to come is replaced by that merge, under the tree
that stands at it. -/
theorem not_kept_of_id_of_merge :
    AreFresh (fun _ => True) .empty (lateDeeds "merge-1" ++ firstMerge) ∧
      (Depot.empty.performAll (lateDeeds "merge-1")).message? "merge-1" = some "commit merge-1" ∧
      (Depot.empty.performAll (lateDeeds "merge-1" ++ firstMerge)).message? "merge-1" =
        some "Merge feature" ∧
      ¬ (Depot.empty.performAll (lateDeeds "merge-1" ++ firstMerge)).HoldsHeads := by
  obtain ⟨added, message, lost, made⟩ := performAll_firstMerge
  have head : (Depot.empty.performAll (lateDeeds "merge-1" ++ firstMerge)).history.get? "merge-1" =
      some added := by
    rw [made]
    exact Dict.get?_put_self _ (mergeId 1) added
  refine ⟨areFresh_lateDeeds (fun _ _ => trivial) fun kept => (by cases kept), rfl, ?_, ?_⟩
  · rw [message?, head, Option.map_some, message]
  · intro holds
    have stands : (Depot.empty.performAll (lateDeeds "merge-1" ++ firstMerge)).tree? ⟨"aside"⟩ =
        some ⟨"late", "merge-1", ⟨[("late.c", "l")]⟩⟩ := by
      rw [made]
      rfl
    obtain ⟨_, there, files⟩ := holds _ _ stands
    cases head.symm.trans there
    rw [files] at lost
    cases lost

end SourceRecipe.Depot
