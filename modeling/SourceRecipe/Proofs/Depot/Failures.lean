import SourceRecipe.Proofs.Depot.Reached

/-!
# Calls that fail

A checkout or a merge that fails leaves a depot as it was, but for a branch that could not be
reached, which has one failure less to come.  A merge counts itself before it looks for the commits
that it goes back to once more; in a depot that can be reached it finds them, because the head of
the tree is kept and the revision merged has been found before.
-/

namespace SourceRecipe.Depot

inductive Leaves (depot : Depot) (branch : String) : Fault → Depot → Prop where
  /-- The branch was not reached. -/
  | unreached {left : Nat} (pending : depot.failures.get? branch = some (left + 1))
      (message : String) :
      Leaves depot branch (.network message)
        { depot with failures := depot.failures.put branch left }
  /-- Every other call is refused without a trace. -/
  | refused {fault : Fault} (otherwise : ∀ message, fault ≠ .network message) :
      Leaves depot branch fault depot

variable {depot after : Depot} {branch revision message : String} {fault : Fault}

theorem leaves_of_reach (failed : reach branch depot = (.error fault, after)) :
    Leaves depot branch fault after := by
  obtain ⟨left, pending, rfl, rfl⟩ := reach_eq_error_iff.mp failed
  exact .unreached pending _

theorem leaves_of_checkout {target : Path}
    (failed : checkout branch revision target depot = (.error fault, after)) :
    Leaves depot branch fault after := by
  rcases checkout_stops failed with unreached | ⟨rfl, cause⟩
  · exact leaves_of_reach unreached
  · refine .refused fun message impossible => ?_
    subst impossible
    rcases cause with ⟨_, impossible⟩ | impossible | ⟨_, impossible⟩ | ⟨_, _, _, unkept⟩
    · cases impossible
    · cases impossible
    · cases impossible
    · cases (stored_eq_error unkept).2

/-- A merge of a kept revision into a tree goes through once it has begun to be committed. -/
theorem exists_commitMerge (keeps : depot.KeepsHeads) {path : Path} {tree : WorkingTree}
    (stands : depot.tree? path = some tree) (kept : depot.Keeps revision) (message : String)
    (files : Files) :
    ∃ later, commitMerge path tree revision message files depot = (.ok (), later) := by
  obtain ⟨head, ours⟩ := Option.isSome_iff_exists.mp (keeps path.parts tree stands)
  obtain ⟨theirs, other⟩ := Option.isSome_iff_exists.mp kept
  exact ⟨_, commitMerge_eq_ok_iff.mpr
    ⟨head, theirs, stored_eq_ok_iff.mpr ours, stored_eq_ok_iff.mpr other, rfl⟩⟩

theorem leaves_of_merge (keeps : depot.KeepsHeads) {path : Path}
    (failed : merge path branch revision message depot = (.error fault, after)) :
    Leaves depot branch fault after := by
  rcases merge_stops failed with unreached | ⟨rfl, cause⟩ | ⟨tree, theirs, files, stands, kept, failed⟩
  · exact leaves_of_reach unreached
  · refine .refused fun message impossible => ?_
    subst impossible
    rcases cause with ⟨_, impossible⟩ | ⟨_, impossible⟩ | ⟨_, impossible⟩
    · cases impossible
    · cases impossible
    · cases impossible
  · obtain ⟨later, committed⟩ := exists_commitMerge keeps stands (keeps_of_stored kept) message files
    rw [committed] at failed
    cases failed

/-! ## Calls -/

/-- A call that fails leaves the depot as its request does, or is given up before it is made. -/
theorem leaves_of_call {α : Type} {token : Token} {request : Request α} {world later : World Depot}
    (failing : ∀ fault after, request world.store = (.error fault, after) →
      Leaves world.store branch fault after)
    (failed : request.call token world = (.error fault, later)) :
    ∃ depot, Leaves world.store branch fault depot ∧ later = { world with store := depot } := by
  rw [call_run] at failed
  split at failed
  · cases failed
    exact ⟨_, .refused fun _ impossible => (by cases impossible), rfl⟩
  · obtain ⟨requested, rfl⟩ := Prod.mk.inj failed
    exact ⟨_, failing _ _ (Prod.ext requested rfl), rfl⟩

/-- In a depot that can be reached a checkout or a merge that fails changes nothing, but that a
branch behind a network that fails has one failure less to come; and no merge fails once it has
begun to be committed. -/
theorem leaves_of_failed_call {Allows : String → Prop} {world : World Depot}
    (reached : Reached Allows world.store) (token : Token) (branch revision : String) :
    (∀ target fault later,
      backend.checkout token branch revision target world = (.error fault, later) →
      ∃ depot, Leaves world.store branch fault depot ∧ later = { world with store := depot }) ∧
    (∀ path message fault later,
      backend.merge token path branch revision message world = (.error fault, later) →
      ∃ depot, Leaves world.store branch fault depot ∧ later = { world with store := depot }) ∧
    ∀ path tree message files, world.store.tree? path = some tree → world.store.Keeps revision →
      ∃ later, commitMerge path tree revision message files world.store = (.ok (), later) := by
  have keeps := reached.keepsHeads
  refine ⟨fun target fault later failed => ?_, fun path message fault later failed => ?_, ?_⟩
  · exact leaves_of_call (fun _ _ => leaves_of_checkout) failed
  · exact leaves_of_call (fun _ _ => leaves_of_merge keeps) failed
  · exact fun path tree message files stands kept =>
      exists_commitMerge keeps stands kept message files

/-- A tree of a branch that cannot be reached any more, and a second branch that has another text in
the only file. -/
def disputedDepot : Depot :=
  (checkout "base" "b1" ⟨"out"⟩ ((Depot.empty.commit "base" "b1" ⟨0, 0⟩ [("README", "1")]).commit
    "feature" "f1" ⟨5, 0⟩ [("README", "2")])).2.failTimes "base" 2

theorem leaves_of_failed_call_disputedDepot :
    backend.merge ⟨0, none⟩ ⟨"out"⟩ "feature" "f1" "Merge feature" (.initial disputedDepot) =
        (.error (.conflict "feature" [⟨"README"⟩]), .initial disputedDepot) ∧
      (∃ later, backend.checkout ⟨0, none⟩ "base" "b1" ⟨"other"⟩ (.initial disputedDepot) =
          (.error (.network "simulated failure reaching base"), later) ∧
        later.store.failures.get? "base" = some 1 ∧ later.store.trees = disputedDepot.trees) ∧
      ∃ later, commitMerge ⟨"out"⟩ ⟨"base", "b1", ⟨[("README", "1")]⟩⟩ "f1" "Merge feature" .empty
        disputedDepot = (.ok (), later) := by
  have reached : Reached (fun _ => True) disputedDepot :=
    .failTimes (.checkout (.commit (.commit .empty "base" trivial ⟨0, 0⟩ _) "feature" trivial
      ⟨5, 0⟩ _) "base" "b1" ⟨"out"⟩) "base" 2
  have stands : disputedDepot.tree? ⟨"out"⟩ = some ⟨"base", "b1", ⟨[("README", "1")]⟩⟩ := by
    decide +kernel
  have kept : disputedDepot.stored "f1" = .ok ⟨[], ⟨5, 0⟩, "commit f1", ⟨[("README", "2")]⟩⟩ := rfl
  have alone : disputedDepot.history.parents "b1" = [] := rfl
  have orphan : disputedDepot.history.parents "f1" = [] := rfl
  have disputed : Files.conflicts .empty ⟨[("README", "1")]⟩ ⟨[("README", "2")]⟩ = ["README"] := by
    decide +kernel
  have unknown : "f1" ∉ disputedDepot.history.ancestors "b1" := by
    rw [History.ancestors_of_parents_eq_nil alone]
    decide
  have common : disputedDepot.commonFiles "b1" "f1" = .ok .empty := by
    rw [commonFiles, History.mergeBase?_of_parents_eq_nil alone orphan (by decide)]
  have differ : Files.conflicts .empty ⟨[("README", "1")]⟩ ⟨[("README", "2")]⟩ ≠ [] := by
    rw [disputed]
    exact List.cons_ne_nil _ _
  have reaches : disputedDepot.Reaches "feature" := fun _ impossible => by cases impossible
  have refused := @merge_of_conflicts ⟨"out"⟩ "feature" "f1" "Merge feature" disputedDepot reaches
    _ _ _ stands kept unknown common differ
  rw [disputed] at refused
  obtain ⟨_, merges, commits⟩ := @leaves_of_failed_call _ (.initial disputedDepot) reached
    ⟨0, none⟩ "feature" "f1"
  obtain ⟨checkouts, _⟩ := @leaves_of_failed_call _ (.initial disputedDepot) reached
    ⟨0, none⟩ "base" "b1"
  have called : (backend.merge ⟨0, none⟩ ⟨"out"⟩ "feature" "f1" "Merge feature"
      (.initial disputedDepot)).1 = .error (.conflict "feature" [⟨"README"⟩]) :=
    congrArg Prod.fst refused
  have unreached : (backend.checkout ⟨0, none⟩ "base" "b1" ⟨"other"⟩ (.initial disputedDepot)).1 =
      .error (.network "simulated failure reaching base") := rfl
  refine ⟨?_, ?_, commits _ _ _ _ stands rfl⟩
  · obtain ⟨_, leaves, same⟩ := merges _ _ _ _ (Prod.ext called rfl)
    cases leaves
    exact Prod.ext called same
  · obtain ⟨_, leaves, same⟩ := checkouts _ _ _ (Prod.ext unreached rfl)
    refine ⟨_, Prod.ext unreached rfl, ?_⟩
    rw [same]
    cases leaves with
    | @unreached left pending =>
        have two : disputedDepot.failures.get? "base" = some 2 := rfl
        cases two.symm.trans pending
        exact ⟨Dict.get?_put_self _ _ _, rfl⟩
    | refused otherwise => exact absurd rfl (otherwise _)

end SourceRecipe.Depot
