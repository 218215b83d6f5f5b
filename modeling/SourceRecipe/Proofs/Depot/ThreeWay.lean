import Mathlib.Data.List.Sort
import SourceRecipe.Proofs.Depot.Failures
import SourceRecipe.Proofs.Depot.Merging
import SourceRecipe.Proofs.Depot.Offshoots
import SourceRecipe.Proofs.Depot.Outages

/-!
# Merges into a working tree

A merge of a kept revision into a tree ends in one of three ways.  The history of the tree has the
revision already; or the files are disputed, the tree's, the revision's and those that both have
started from; or the tree moves to a commit of its own that has both sides.  In a depot that can be
reached no merge fails for want of a commit, because the parents of what is kept are kept, and so
are all ancestors, the one that two revisions have started from among them.
-/

namespace SourceRecipe.Depot

/-- The files that two revisions have started from: those of the common ancestor that is nearest to
the second one, or none if there is no common ancestor. -/
def startFiles (depot : Depot) (ours theirs : String) : Files :=
  match depot.history.mergeBase? ours theirs with
  | none => .empty
  | some common => depot.filesOf common

variable {depot after : Depot} {path : Path} {tree : WorkingTree} {branch revision : String}
  {theirs : Commit}

/-- What two revisions have started from is kept where the first of them is. -/
theorem IsWhole.commonFiles_eq (whole : depot.IsWhole) {ours : String} (kept : depot.Keeps ours)
    (other : String) : depot.commonFiles ours other = .ok (depot.startFiles ours other) := by
  unfold commonFiles startFiles
  cases common : depot.history.mergeBase? ours other with
  | none => rfl
  | some start =>
      have above := History.mem_ancestors_iff.mpr (History.descends_of_mergeBase? common).1
      obtain ⟨commit, found⟩ := Option.isSome_iff_exists.mp (whole.keeps_of_mem_ancestors kept above)
      simp only [stored_eq_ok_iff.mpr found, filesOf, found]
      rfl

/-! ## The tree after a merge -/

/-- Whether a tree has been moved to a merge of a revision, all other trees being as they were: its
new head has the old one and the revision as parents, and the tree has the files of the new head,
which are the tree's and the revision's put together. -/
structure Moves (depot after : Depot) (path : Path) (tree : WorkingTree) (revision : String)
    (theirs : Files) : Prop where
  moved : ∃ head commit, after.tree? path = some ⟨tree.branch, head, commit.files⟩ ∧
    after.history.get? head = some commit ∧ commit.parents = [tree.head, revision] ∧
      Files.IsMerge (depot.startFiles tree.head revision) tree.files theirs commit.files
  others : ∀ other, other.parts ≠ path.parts → after.tree? other = depot.tree? other

theorem moves_withMerge (depot : Depot) (path : Path) (tree : WorkingTree) (revision : String)
    (theirs : Files) (time : Time.Instant) (message : String) :
    Moves depot (depot.withMerge path tree.branch ⟨[tree.head, revision], time, message,
        Files.merged (depot.startFiles tree.head revision) tree.files theirs⟩)
      path tree revision theirs := by
  refine ⟨⟨mergeId (depot.merges + 1), _, Dict.get?_put_self _ _ _, Dict.get?_put_self _ _ _, rfl,
    Files.isMerge_merged _ _ _⟩, fun other elsewhere => ?_⟩
  unfold tree? withMerge
  rw [Dict.get?_put, if_neg (Ne.symm elsewhere)]

/-- A revision that a tree descends from is up to date in it. -/
theorem merge_of_descends (reaches : depot.Reaches branch) (stands : depot.tree? path = some tree)
    (kept : depot.Keeps revision) (above : depot.history.Descends tree.head revision)
    (message : String) : merge path branch revision message depot = (.ok .upToDate, depot) := by
  obtain ⟨theirs, found⟩ := Option.isSome_iff_exists.mp kept
  exact merge_eq_ok_iff.mpr ⟨reaches, tree, theirs, stands, stored_eq_ok_iff.mpr found,
    .inl ⟨History.mem_ancestors_iff.mpr above, rfl, rfl⟩⟩

/-- Once a revision is a parent of the head of a tree, there is nothing left to merge of it. -/
theorem merge_withMerge (reaches : depot.Reaches branch) (kept : depot.Keeps revision)
    (home : String) {added : Commit} (parent : revision ∈ added.parents) (message : String) :
    merge path branch revision message (depot.withMerge path home added) =
      (.ok .upToDate, depot.withMerge path home added) := by
  have above : revision ∈ History.parents (depot.withMerge path home added).history
      (mergeId (depot.merges + 1)) := by
    rw [withMerge, History.parents_put, if_pos rfl]
    exact parent
  have reaches : (depot.withMerge path home added).Reaches branch := reaches
  exact merge_of_descends reaches (Dict.get?_put_self _ _ _) (Keeps.put kept) (.single above) message

/-! ## The three ways -/

inductive Ends (depot : Depot) (path : Path) (tree : WorkingTree) (branch revision : String)
    (theirs : Files) : Except Fault MergeOutcome → Depot → Prop where
  | known (above : depot.history.Descends tree.head revision) :
      Ends depot path tree branch revision theirs (.ok .upToDate) depot
  | refused (new : ¬ depot.history.Descends tree.head revision) {names : List String}
      (ascending : names.Pairwise (· < ·))
      (disputed : ∀ name, name ∈ names ↔
        Files.IsDisputed (depot.startFiles tree.head revision) tree.files theirs name)
      (some : names ≠ []) :
      Ends depot path tree branch revision theirs (.error (.conflict branch (names.map Path.mk)))
        depot
  | merged (new : ¬ depot.history.Descends tree.head revision)
      (agree : ∀ name,
        ¬ Files.IsDisputed (depot.startFiles tree.head revision) tree.files theirs name)
      {after : Depot} (moves : Moves depot after path tree revision theirs)
      (settled : ∀ message, merge path branch revision message after = (.ok .upToDate, after)) :
      Ends depot path tree branch revision theirs (.ok .merged) after

namespace Ends

variable {files : Files} {answer : Except Fault MergeOutcome}

theorem upToDate_iff (ends : Ends depot path tree branch revision files answer after) :
    answer = .ok .upToDate ↔ depot.history.Descends tree.head revision := by
  cases ends with
  | known above => exact iff_of_true rfl above
  | refused new => exact iff_of_false (fun impossible => by cases impossible) new
  | merged new => exact iff_of_false (fun impossible => by cases impossible) new

theorem conflict_iff (ends : Ends depot path tree branch revision files answer after) :
    (∃ paths, answer = .error (.conflict branch paths)) ↔
      ¬ depot.history.Descends tree.head revision ∧ ∃ name,
        Files.IsDisputed (depot.startFiles tree.head revision) tree.files files name := by
  cases ends with
  | known above =>
      refine iff_of_false ?_ fun new => new.1 above
      rintro ⟨paths, impossible⟩
      cases impossible
  | @refused new names _ disputed some =>
      obtain ⟨name, listed⟩ := List.exists_mem_of_ne_nil names some
      exact iff_of_true ⟨_, rfl⟩ ⟨new, name, (disputed name).mp listed⟩
  | merged new agree =>
      refine iff_of_false ?_ fun ⟨_, name, disputed⟩ => agree name disputed
      rintro ⟨paths, impossible⟩
      cases impossible

theorem merged_iff (ends : Ends depot path tree branch revision files answer after) :
    answer = .ok .merged ↔ ¬ depot.history.Descends tree.head revision ∧ ∀ name,
      ¬ Files.IsDisputed (depot.startFiles tree.head revision) tree.files files name := by
  cases ends with
  | known above => exact iff_of_false (fun impossible => by cases impossible) fun new => new.1 above
  | @refused _ names _ disputed some =>
      obtain ⟨name, listed⟩ := List.exists_mem_of_ne_nil names some
      refine iff_of_false (fun impossible => by cases impossible) fun agree => ?_
      exact agree.2 name ((disputed name).mp listed)
  | merged new agree => exact iff_of_true rfl ⟨new, agree⟩

/-- A merge that is not committed changes nothing. -/
theorem asIs (ends : Ends depot path tree branch revision files answer after)
    (other : answer ≠ .ok .merged) : after = depot := by
  cases ends with
  | known | refused => rfl
  | merged => exact absurd rfl other

/-- The paths in conflict are told, in ascending order. -/
theorem names (ends : Ends depot path tree branch revision files answer after) {paths : List Path}
    (conflict : answer = .error (.conflict branch paths)) :
    ∃ names : List String, paths = names.map Path.mk ∧ names.Pairwise (· < ·) ∧ ∀ name,
      name ∈ names ↔
        Files.IsDisputed (depot.startFiles tree.head revision) tree.files files name := by
  cases ends with
  | known | merged => cases conflict
  | @refused _ names ascending disputed =>
      cases conflict
      exact ⟨names, rfl, ascending, disputed⟩

theorem moves (ends : Ends depot path tree branch revision files answer after)
    (committed : answer = .ok .merged) :
    Moves depot after path tree revision files ∧
      ∀ message, merge path branch revision message after = (.ok .upToDate, after) := by
  cases ends with
  | known | refused => cases committed
  | merged _ _ moves settled => exact ⟨moves, settled⟩

end Ends

theorem merge_ends (whole : depot.IsWhole) (keeps : depot.KeepsHeads)
    (reaches : depot.Reaches branch) (stands : depot.tree? path = some tree)
    (kept : depot.history.get? revision = some theirs) (message : String) :
    ∃ answer after, merge path branch revision message depot = (answer, after) ∧
      Ends depot path tree branch revision theirs.files answer after := by
  have head : depot.Keeps tree.head := keeps path.parts tree stands
  have stored := stored_eq_ok_iff.mpr kept
  have common := whole.commonFiles_eq head revision
  by_cases above : depot.history.Descends tree.head revision
  · exact ⟨_, _, merge_of_descends reaches stands (keeps_of_get? kept) above message, .known above⟩
  · have new : revision ∉ depot.history.ancestors tree.head := mt History.mem_ancestors_iff.mp above
    by_cases agree : Files.conflicts (depot.startFiles tree.head revision) tree.files theirs.files = []
    · obtain ⟨ours, found⟩ := Option.isSome_iff_exists.mp head
      refine ⟨_, _, merge_eq_ok_iff.mpr ⟨reaches, tree, theirs, stands, stored,
        .inr ⟨new, rfl, _, ours, common, agree, stored_eq_ok_iff.mpr found, rfl⟩⟩, ?_⟩
      refine .merged above (fun name disputed => ?_) (moves_withMerge depot path tree revision _ _ _)
        (merge_withMerge reaches (keeps_of_get? kept) tree.branch ?_)
      · have listed := Files.mem_conflicts_iff.mpr disputed
        rw [agree] at listed
        exact List.not_mem_nil listed
      · exact List.mem_cons_of_mem tree.head List.mem_cons_self
    · exact ⟨_, _, merge_of_conflicts reaches stands stored new common agree,
        .refused above (Files.pairwise_conflicts _ _ _) (fun _ => Files.mem_conflicts_iff) agree⟩

/-- In a depot that can be reached a merge of a kept revision into a tree, made while the token has
not fired and the branch can be reached, is up to date exactly when the tree descends from the
revision; otherwise it is refused exactly when some path is disputed, and names these paths in
ascending order.  Either way nothing changes.  Else the tree moves to a merge of both sides, in
which the revision is up to date from then on. -/
theorem merge_decides {Allows : String → Prop} {world : World Depot}
    (reached : Reached Allows world.store) {token : Token} (quiet : world.hasFired token = false)
    (reaches : world.store.Reaches branch) (stands : world.store.tree? path = some tree)
    (kept : world.store.history.get? revision = some theirs) (message : String) :
    ∃ answer after, backend.merge token path branch revision message world =
        (answer, { world with store := after }) ∧
      (answer = .ok .upToDate ↔ world.store.history.Descends tree.head revision) ∧
      ((∃ paths, answer = .error (.conflict branch paths)) ↔
        ¬ world.store.history.Descends tree.head revision ∧ ∃ name, Files.IsDisputed
          (world.store.startFiles tree.head revision) tree.files theirs.files name) ∧
      (answer = .ok .merged ↔
        ¬ world.store.history.Descends tree.head revision ∧ ∀ name, ¬ Files.IsDisputed
          (world.store.startFiles tree.head revision) tree.files theirs.files name) ∧
      (answer ≠ .ok .merged → after = world.store) ∧
      (∀ paths, answer = .error (.conflict branch paths) →
        ∃ names : List String, paths = names.map Path.mk ∧ names.Pairwise (· < ·) ∧
          ∀ name, name ∈ names ↔ Files.IsDisputed (world.store.startFiles tree.head revision)
            tree.files theirs.files name) ∧
      (answer = .ok .merged →
        Moves world.store after path tree revision theirs.files ∧
          ∀ again, backend.merge token path branch revision again { world with store := after } =
            (.ok .upToDate, { world with store := after })) := by
  obtain ⟨answer, after, asked, ends⟩ :=
    merge_ends reached.isWhole reached.keepsHeads reaches stands kept message
  refine ⟨answer, after, ?_, ends.upToDate_iff, ends.conflict_iff, ends.merged_iff, ends.asIs,
    fun paths conflict => ends.names conflict, fun committed => ?_⟩
  · refine (call_of_quiet (merge path branch revision message) quiet).trans ?_
    rw [asked]
  · obtain ⟨moves, settled⟩ := ends.moves committed
    refine ⟨moves, fun again => ?_⟩
    have still : World.hasFired { world with store := after } token = false := quiet
    refine (call_of_quiet (merge path branch revision again) still).trans ?_
    rw [settled again]

/-- A tree of a branch that has lost a file since another branch parted from it.  The other branch
has changed one file, and has the given text in the lost one. -/
def partedDepot (text : String) : Depot :=
  (checkout "base" "b2" ⟨"out"⟩
    ((((Depot.empty.commit "base" "b1" ⟨0, 0⟩ [("lost", "1"), ("changed", "1")]).branchFrom
      "feature" "base").commit "base" "b2" ⟨5, 0⟩ [("lost", "")]).commit
        "feature" "f1" ⟨9, 0⟩ [("lost", text), ("changed", "2")])).2

theorem partedDepot_parted (text : String) :
    ¬ (partedDepot text).history.Descends "b2" "f1" ∧
      (partedDepot text).startFiles "b2" "f1" = ⟨[("changed", "1"), ("lost", "1")]⟩ := by
  have root : (partedDepot text).history.parents "b1" = [] := rfl
  have ours : (partedDepot text).history.parents "b2" = ["b1"] := rfl
  have theirs : (partedDepot text).history.parents "f1" = ["b1"] := rfl
  have history (ancestor : String) : ancestor ∈ (partedDepot text).history.ancestors "b2" ↔
      ancestor = "b2" ∨ ancestor = "b1" := by
    rw [History.mem_ancestors_iff_parents, ours]
    simp only [List.mem_singleton, exists_eq_left, History.ancestors_of_parents_eq_nil root]
  have new : "f1" ∉ (partedDepot text).history.ancestors "b2" := by
    rw [history]
    decide
  have trail : (partedDepot text).history.Trail "b1" ["f1"] "f1" :=
    .next .start theirs List.not_mem_nil
  refine ⟨mt History.mem_ancestors_iff.mpr new, ?_⟩
  rw [startFiles, trail.mergeBase?_eq (List.forall_mem_singleton.mpr new)
    ((history "b1").mpr (.inr rfl))]
  rfl

/-- A file that one side has lost stays lost where the other side has left it alone, and is in
conflict where the other side has changed it. -/
theorem merge_decides_partedDepot :
    (∃ after, backend.merge ⟨0, none⟩ ⟨"out"⟩ "feature" "f1" "Merge" (.initial (partedDepot "1")) =
        (.ok .merged, .initial after) ∧
      backend.merge ⟨0, none⟩ ⟨"out"⟩ "feature" "f1" "Again" (.initial after) =
        (.ok .upToDate, .initial after) ∧
      ∃ tree, after.tree? ⟨"out"⟩ = some tree ∧ tree.files.get? "lost" = none ∧
        tree.files.get? "changed" = some "2") ∧
    backend.merge ⟨0, none⟩ ⟨"out"⟩ "feature" "f1" "Merge" (.initial (partedDepot "3")) =
      (.error (.conflict "feature" [⟨"lost"⟩]), .initial (partedDepot "3")) := by
  have reached (text : String) : Reached (fun _ => True) (partedDepot text) :=
    .checkout (.commit (.commit (.branchFrom (.commit .empty "base" trivial ⟨0, 0⟩ _) "feature"
      "base") "base" trivial ⟨5, 0⟩ _) "feature" trivial ⟨9, 0⟩ _) "base" "b2" ⟨"out"⟩
  have reaches (text : String) : (partedDepot text).Reaches "feature" := fun _ impossible => by
    cases impossible
  have stands (text : String) : (partedDepot text).tree? ⟨"out"⟩ =
      some ⟨"base", "b2", ⟨[("changed", "1")]⟩⟩ := Dict.get?_put_self _ _ _
  have kept (text : String) : (partedDepot text).history.get? "f1" = some ⟨["b1"], ⟨9, 0⟩,
      "commit f1", Files.applying ⟨[("changed", "1"), ("lost", "1")]⟩
        [("lost", text), ("changed", "2")]⟩ := rfl
  constructor
  · obtain ⟨new, start⟩ := partedDepot_parted "1"
    have agree : Files.conflicts ((partedDepot "1").startFiles "b2" "f1") ⟨[("changed", "1")]⟩
        ⟨[("changed", "2"), ("lost", "1")]⟩ = [] := by
      rw [start]
      decide +kernel
    obtain ⟨answer, after, called, _, _, merges, _, _, moved⟩ :=
      @merge_decides ⟨"out"⟩ _ "feature" "f1" _ _ (.initial (partedDepot "1")) (reached "1")
        ⟨0, none⟩ rfl (reaches "1") (stands "1") (kept "1") "Merge"
    obtain rfl := merges.mpr ⟨new, fun name disputed =>
      List.not_mem_nil (agree ▸ Files.mem_conflicts_iff.mpr disputed)⟩
    obtain ⟨⟨⟨head, commit, there, _, _, merge⟩, _⟩, again⟩ := moved rfl
    rw [World.initial, start] at merge
    exact ⟨after, called, again "Again", _, there, merge.fromOurs "lost" rfl,
      merge.fromTheirs "changed" rfl⟩
  · obtain ⟨new, start⟩ := partedDepot_parted "3"
    have differ : Files.conflicts ((partedDepot "3").startFiles "b2" "f1") ⟨[("changed", "1")]⟩
        ⟨[("changed", "2"), ("lost", "3")]⟩ = ["lost"] := by
      rw [start]
      decide +kernel
    obtain ⟨answer, after, called, _, refused, _, unchanged, named, _⟩ :=
      @merge_decides ⟨"out"⟩ _ "feature" "f1" _ _ (.initial (partedDepot "3")) (reached "3")
        ⟨0, none⟩ rfl (reaches "3") (stands "3") (kept "3") "Merge"
    have lost := Files.mem_conflicts_iff.mp (differ.symm ▸ List.mem_cons_self)
    obtain ⟨paths, rfl⟩ := refused.mpr ⟨new, "lost", lost⟩
    obtain ⟨names, rfl, ascending, disputed⟩ := named paths rfl
    have same : names = ["lost"] := by
      refine (ascending.eq_of_mem_iff (Files.pairwise_conflicts _ _ _) fun name => ?_).trans differ
      exact (disputed name).trans Files.mem_conflicts_iff.symm
    have asIs := unchanged fun impossible => by cases impossible
    rw [called, asIs, same]
    rfl

end SourceRecipe.Depot
