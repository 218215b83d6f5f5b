import Mathlib.Tactic.Choose
import SourceRecipe.Proofs.Depot.Merging
import SourceRecipe.Proofs.Depot.Offshoots
import SourceRecipe.Proofs.Depot.Renaming

/-!
# Siblings

Branches that were begun at one revision of a base and only committed to since have nothing in
common but the ancestors of that revision.  So whichever of them were merged into a tree of the base,
the next one and the tree have started from that revision, and the changes of the branches come
together path by path.
-/

namespace SourceRecipe.Depot

/-- The newest revision of a branch; an empty name where it has none. -/
def newest (depot : Depot) (branch : String) : String :=
  (depot.tip? branch).getD ""

theorem newest_eq {depot : Depot} {branch revision : String}
    (tip : depot.tip? branch = some revision) : depot.newest branch = revision := by
  rw [newest, tip, Option.getD_some]

/-- A branch that can be reached is found at its newest revision. -/
theorem answer_tip {depot : Depot} {branch revision : String} (reaches : depot.Reaches branch)
    (tip : depot.tip? branch = some revision) :
    depot.answer ⟨branch, .tip⟩ = .ok (depot.newest branch) := by
  obtain ⟨revisions, line, last⟩ := exists_line_of_tip tip
  rw [newest_eq tip]
  exact answer_eq_ok_iff.mpr ⟨reaches, revisions, line, congrArg Except.ok last⟩

def tipFiles (depot : Depot) (branch : String) : Files :=
  match depot.tip? branch with
  | none => .empty
  | some newest => depot.filesOf newest

theorem tipFiles_eq {depot : Depot} {branch revision : String} {commit : Commit}
    (tip : depot.tip? branch = some revision) (kept : depot.history.get? revision = some commit) :
    depot.tipFiles branch = commit.files := by
  rw [tipFiles, tip]
  simp only [filesOf, kept]

/-- A merge has the ancestors of its parents. -/
theorem mem_ancestors_withMerge {depot : Depot} {path : Path} {branch ancestor : String}
    {added : Commit} (whole : depot.IsWhole) (spares : depot.SparesMerges)
    (kept : ∀ parent ∈ added.parents, depot.Keeps parent) :
    ancestor ∈ (depot.withMerge path branch added).history.ancestors (mergeId (depot.merges + 1)) ↔
      ancestor = mergeId (depot.merges + 1) ∨
        ∃ parent ∈ added.parents, ancestor ∈ depot.history.ancestors parent := by
  have parents : (depot.withMerge path branch added).history.parents (mergeId (depot.merges + 1)) =
      added.parents := (History.parents_put _ _ _ _).trans (if_pos rfl)
  rw [History.mem_ancestors_iff_parents, parents]
  refine or_congr_right (exists_congr fun parent => and_congr_right fun above => ?_)
  exact whole.mem_ancestors_iff (spares.keptIn_withMerge path branch added) (kept parent above)

/-! ## Branches beside each other -/

/-- Whether some branches have grown out of the newest revision of a base, each by commits of its
own, which have the ids that `own` tells. -/
structure Siblings (depot : Depot) (base root : String) (branches : List String)
    (own : String → List String) : Prop where
  whole : depot.IsWhole
  spares : depot.SparesMerges
  tip : depot.tip? base = some root
  offshoot : ∀ branch ∈ branches, depot.Offshoot root branch (depot.newest branch) (own branch)
  disjoint : ∀ branch ∈ branches, ∀ other ∈ branches, ∀ id ∈ own branch, id ∈ own other →
    branch = other

section

variable {Allows : String → Prop} {start depot after : Depot} {deeds : List Deed}
  {base root branch : String} {branches done : List String} {own : String → List String}

theorem exists_siblings (spared : ∀ id, Allows id → ∀ number, id ≠ mergeId number)
    (fresh : AreFresh Allows .empty deeds)
    (tip : (Depot.empty.performAll deeds).tip? base = some root)
    (sprouts : ∀ branch ∈ branches, Sprouts deeds base root branch) :
    ∃ own, (Depot.empty.performAll deeds).Siblings base root branches own := by
  have grows : ∀ branch ∈ branches, ∃ ids,
      (Depot.empty.performAll deeds).Offshoot root branch
        ((Depot.empty.performAll deeds).newest branch) ids ∧
      ∀ id ∈ ids, ∃ time changes, .commit branch id time changes ∈ deeds := by
    intro branch member
    obtain ⟨newest, ids, offshoot, committed⟩ := (sprouts branch member).offshoot spared fresh
    rw [newest_eq offshoot.tip]
    exact ⟨ids, offshoot, committed⟩
  choose! own offshoot committed using grows
  have reached := Reached.performAll .empty fresh
  refine ⟨own, reached.isWhole, reached.sparesMerges spared, tip, offshoot, ?_⟩
  intro branch member other likewise id here there
  obtain ⟨_, _, listed⟩ := committed branch member id here
  obtain ⟨_, _, too⟩ := committed other likewise id there
  exact fresh.branch_eq spared .empty listed too

namespace Siblings

theorem mem_ancestors_iff (siblings : start.Siblings base root branches own)
    (grown : start.Grown depot) (member : branch ∈ branches) {ancestor : String} :
    ancestor ∈ depot.history.ancestors (start.newest branch) ↔
      ancestor ∈ own branch ∨ ancestor ∈ start.history.ancestors root := by
  have offshoot := siblings.offshoot branch member
  have kept := grown.keptIn siblings.spares
  rw [(offshoot.trail.mono kept).mem_ancestors_iff,
    siblings.whole.mem_ancestors_iff kept (offshoot.keeps_root siblings.whole)]

/-- The commit of a branch that is newest, as the depot has it at the start and later. -/
theorem exists_newest (siblings : start.Siblings base root branches own)
    (grown : start.Grown depot) (member : branch ∈ branches) :
    ∃ commit, depot.stored (start.newest branch) = .ok commit ∧
      commit.files = start.tipFiles branch := by
  have tip := (siblings.offshoot branch member).tip
  obtain ⟨commit, kept⟩ := Option.isSome_iff_exists.mp (siblings.whole.keeps_tip tip)
  refine ⟨commit, stored_eq_ok_iff.mpr ?_, (tipFiles_eq tip kept).symm⟩
  exact grown.keptIn siblings.spares _ _ kept

/-- A branch without commits of its own has the files of the base. -/
theorem tipFiles_eq_base (siblings : start.Siblings base root branches own)
    (member : branch ∈ branches) (same : start.newest branch = root) :
    start.tipFiles branch = start.tipFiles base := by
  rw [tipFiles, tipFiles, (siblings.offshoot branch member).tip, siblings.tip, same]

end Siblings

/-! ## A tree of the base with branches merged into it -/

/-- Whether a tree has in its history what some branches have on their own and no other commits that
were there at the start but the ancestors of the root, and has in its files what these branches have
changed. -/
structure Gathered (start : Depot) (base root : String) (own : String → List String)
    (done : List String) (depot : Depot) (tree : WorkingTree) : Prop where
  head : depot.Keeps tree.head
  descends : root ∈ depot.history.ancestors tree.head
  merged : ∀ branch ∈ done, start.newest branch ∈ depot.history.ancestors tree.head
  others : ∀ id ∈ depot.history.ancestors tree.head, start.Keeps id →
    id ∈ start.history.ancestors root ∨ ∃ branch ∈ done, id ∈ own branch
  files : Files.Gathers (start.tipFiles base) (done.map start.tipFiles) tree.files

namespace Gathered

variable {tree : WorkingTree}

/-- What a branch has on its own is in the history of a tree only if the branch was merged. -/
theorem mem_done (siblings : start.Siblings base root branches own) (known : done ⊆ branches)
    (gathered : Gathered start base root own done depot tree) (member : branch ∈ branches)
    {id : String} (proper : id ∈ own branch) (above : id ∈ depot.history.ancestors tree.head) :
    branch ∈ done := by
  have offshoot := siblings.offshoot branch member
  have kept : start.Keeps id := offshoot.trail.isSome id proper
  obtain ⟨other, merged, there⟩ :=
    (gathered.others id above kept).resolve_left (offshoot.outside id proper)
  rw [siblings.disjoint branch member other (known merged) id proper there]
  exact merged

/-- A branch that the history of a tree has was merged, or has no commits of its own.  Either way
there are no changes of it that the tree lacks. -/
theorem of_known (siblings : start.Siblings base root branches own) (known : done ⊆ branches)
    (gathered : Gathered start base root own done depot tree) (member : branch ∈ branches)
    (apart : ∀ other ∈ done,
      Files.AreApart (start.tipFiles base) (start.tipFiles other) (start.tipFiles branch))
    (above : start.newest branch ∈ depot.history.ancestors tree.head) :
    Gathered start base root own (branch :: done) depot tree := by
  have unchanged (path : String) :
      (start.tipFiles branch).get? path = (start.tipFiles base).get? path := by
    rcases (siblings.offshoot branch member).trail.newest_mem with same | proper
    · rw [siblings.tipFiles_eq_base member same]
    · have merged := gathered.mem_done siblings known member proper above
      exact or_self_iff.mp (apart branch merged path)
  refine ⟨gathered.head, gathered.descends, List.forall_mem_cons.mpr ⟨above, gathered.merged⟩,
    fun id there kept => ?_, gathered.files.cons_of_unchanged unchanged⟩
  refine (gathered.others id there kept).imp_right ?_
  rintro ⟨other, merged, proper⟩
  exact ⟨other, List.mem_cons_of_mem branch merged, proper⟩

/-- A branch that the history of a tree does not have has started from the root, like the tree. -/
theorem commonFiles (siblings : start.Siblings base root branches own) (known : done ⊆ branches)
    (grown : start.Grown depot) (gathered : Gathered start base root own done depot tree)
    (member : branch ∈ branches) (new : start.newest branch ∉ depot.history.ancestors tree.head) :
    depot.commonFiles tree.head (start.newest branch) = .ok (start.tipFiles base) := by
  have kept := grown.keptIn siblings.spares
  obtain ⟨commit, found⟩ := Option.isSome_iff_exists.mp (siblings.whole.keeps_tip siblings.tip)
  -- The walk from the branch to the root meets no revision that the tree has.
  have outside : ∀ id ∈ own branch, id ∉ depot.history.ancestors tree.head :=
    fun id proper above =>
      new (gathered.merged branch (gathered.mem_done siblings known member proper above))
  have trail := (siblings.offshoot branch member).trail.mono kept
  rw [Depot.commonFiles, trail.mergeBase?_eq outside gathered.descends,
    tipFiles_eq siblings.tip found]
  simp only [stored_eq_ok_iff.mpr (kept root commit found)]
  rfl

/-- A tree that was moved to a merge of a branch has that branch merged into it. -/
theorem withMerge (siblings : start.Siblings base root branches own) (grown : start.Grown depot)
    (whole : depot.IsWhole) (spares : depot.SparesMerges)
    (gathered : Gathered start base root own done depot tree) (member : branch ∈ branches)
    {added : Commit} (parents : added.parents = [tree.head, start.newest branch])
    (files : Files.Gathers (start.tipFiles base) ((branch :: done).map start.tipFiles) added.files)
    (path : Path) :
    Gathered start base root own (branch :: done) (depot.withMerge path tree.branch added)
      ⟨tree.branch, mergeId (depot.merges + 1), added.files⟩ := by
  obtain ⟨_, stored, _⟩ := siblings.exists_newest grown member
  have kept : ∀ parent ∈ added.parents, depot.Keeps parent := by
    rw [parents, List.forall_mem_cons, List.forall_mem_singleton]
    exact ⟨gathered.head, keeps_of_stored stored⟩
  have history (ancestor : String) :
      ancestor ∈ (depot.withMerge path tree.branch added).history.ancestors
          (mergeId (depot.merges + 1)) ↔
        ancestor = mergeId (depot.merges + 1) ∨ ancestor ∈ depot.history.ancestors tree.head ∨
          ancestor ∈ depot.history.ancestors (start.newest branch) := by
    rw [mem_ancestors_withMerge whole spares kept, parents]
    simp only [List.mem_cons, List.not_mem_nil, or_false, exists_eq_or_imp, exists_eq_left]
  refine ⟨keeps_put_self, (history _).mpr (.inr (.inl gathered.descends)),
    List.forall_mem_cons.mpr ⟨(history _).mpr (.inr (.inr ?_)), fun other merged => ?_⟩, ?_, files⟩
  · exact History.mem_ancestors_iff.mpr .refl
  · exact (history _).mpr (.inr (.inl (gathered.merged other merged)))
  · intro id above there
    -- The merge itself was not there at the start.
    rcases (history id).mp above with rfl | above | above
    · exact absurd there (siblings.spares _ (Nat.lt_succ_of_le grown.merges))
    · refine (gathered.others id above there).imp_right ?_
      rintro ⟨other, merged, proper⟩
      exact ⟨other, List.mem_cons_of_mem branch merged, proper⟩
    · refine ((siblings.mem_ancestors_iff grown member).mp above).symm.imp_right fun proper => ?_
      exact ⟨branch, List.mem_cons_self, proper⟩

/-- A branch that the history of a tree does not have is merged into it without conflicts. -/
theorem merge (siblings : start.Siblings base root branches own) (known : done ⊆ branches)
    (grown : start.Grown depot) (whole : depot.IsWhole) (spares : depot.SparesMerges)
    (gathered : Gathered start base root own done depot tree) (member : branch ∈ branches)
    (apart : ∀ other ∈ done,
      Files.AreApart (start.tipFiles base) (start.tipFiles other) (start.tipFiles branch))
    (new : start.newest branch ∉ depot.history.ancestors tree.head) {path : Path}
    (stands : depot.tree? path = some tree) (reaches : start.Reaches branch) (message : String) :
    ∃ after tree,
      Depot.merge path branch (start.newest branch) message depot = (.ok .merged, after) ∧
      after.tree? path = some tree ∧
      Gathered start base root own (branch :: done) after tree := by
  obtain ⟨theirs, stored, theirFiles⟩ := siblings.exists_newest grown member
  obtain ⟨ours, head⟩ := Option.isSome_iff_exists.mp gathered.head
  have common := gathered.commonFiles siblings known grown member new
  obtain ⟨agrees, files⟩ := gathered.files.merge (List.forall_mem_map.mpr apart)
  rw [← List.map_cons] at files
  have moved := @withMerge _ _ _ _ _ _ _ _ _ siblings grown whole spares gathered member
    ⟨[tree.head, start.newest branch], ours.time.later theirs.time, message, _⟩ rfl files path
  rw [← theirFiles] at agrees moved
  exact ⟨_, _, merge_eq_ok_iff.mpr ⟨grown.reaches reaches, tree, theirs, stands, stored,
    .inr ⟨new, rfl, _, ours, common, agrees, stored_eq_ok_iff.mpr head, rfl⟩⟩,
    Dict.get?_put_self _ _ _, moved⟩

end Gathered

end

end SourceRecipe.Depot
