import SourceRecipe.Proofs.Build.Rebuild
import SourceRecipe.Proofs.Build.Repeats
import SourceRecipe.Proofs.Depot.Siblings

/-!
# Builds of siblings

A build of a base with branches merged into it that were begun at the newest revision of the base
goes through in whatever order the branches stand, when no two of them have changed the same path.
The tree that it makes has what the base has, and the changes of all branches.
-/

namespace SourceRecipe

/-! ## Recipes of siblings -/

/-- The merges of some branches at their newest revisions, one after the other, each with its
nickname in front. -/
def Instructions.merging : List (String × String) → Instructions Source
  | [] => .done
  | (nickname, branch) :: others => .step nickname .merge ⟨branch, .tip⟩ .done (merging others)

theorem Instructions.branches_merging (merges : List (String × String)) :
    (merging merges).branches = merges.map fun merge => ⟨merge.2, .tip⟩ := by
  induction merges with
  | nil => rfl
  | cons merge others ih => exact congrArg (Source.mk merge.2 .tip :: ·) ih

def Recipe.merging (header : Header) (base : String) (merges : List (String × String)) : Recipe :=
  ⟨header, ⟨base, .tip⟩, .merging merges⟩

namespace Plan

/-- Merges beside each other are planned one by one. -/
theorem ofBlock_merging (answers : Source → String) (ancestors : List (String × String))
    (here : TreePath) (depth : Nat) (nests : Nests) (merges : List (String × String)) :
    ofBlock ancestors here depth nests
        ((Instructions.merging merges).map (Resolution.pinnedBy answers)) =
      .ok (merges.map fun merge => mergeOperation ancestors here depth merge.1
        (Resolution.pinnedBy answers ⟨merge.2, .tip⟩), nests) := by
  induction merges with
  | nil => rfl
  | cons merge others ih => exact ofBlock_merge_eq_ok_iff.mpr ⟨[], nests, _, rfl, ih, rfl⟩

end Plan

namespace Run

/-! ## Runs -/

/-- The merge of a branch into a tree of a base, both pinned to their newest revisions in a depot. -/
def siblingOperation (start : Depot) (base : String) (merge : String × String) : Operation :=
  Plan.mergeOperation [(base, start.newest base)] [] 0 merge.1
    (Resolution.pinnedBy (fun source => start.newest source.location) ⟨merge.2, .tip⟩)

/-- Whether a depot has grown out of another one and has a tree with some branches merged into it. -/
structure Gathering (start : Depot) (base root : String) (own : String → List String)
    (target : Path) (done : List String) (depot : Depot) : Prop where
  grown : start.Grown depot
  whole : depot.IsWhole
  spares : depot.SparesMerges
  stands : ∃ tree, depot.tree? target = some tree ∧
    Depot.Gathered start base root own done depot tree

variable {start depot : Depot} {base root : String} {branches done : List String}
  {own : String → List String} {target : Path}

/-- A checkout of the base makes a tree that nothing was merged into. -/
theorem gathering_of_checkout (siblings : start.Siblings base root branches own)
    (reaches : start.Reaches base) (free : start.tree? target = none) (count : Nat) :
    ∃ after,
      change target (Plan.rootOperation ⟨⟨base, .tip⟩, root⟩) { start with lookups := count } =
        (.ok false, after) ∧
      Gathering start base root own target [] after := by
  have tip := siblings.tip
  obtain ⟨commit, kept⟩ := Option.isSome_iff_exists.mp (siblings.whole.keeps_tip tip)
  obtain ⟨revisions, line, last⟩ := Depot.exists_line_of_tip tip
  have made : Depot.checkout base root target { start with lookups := count } = (.ok (), _) :=
    Depot.checkout_eq_ok_iff.mpr ⟨reaches, free, revisions, commit, line, List.mem_of_getLast? last,
      Depot.stored_eq_ok_iff.mpr kept, rfl⟩
  have makes : (Plan.rootOperation ⟨⟨base, .tip⟩, root⟩).Makes :=
    fun impossible => (by cases impossible)
  refine ⟨_, change_eq_ok_iff.mpr (.inr (.inr ⟨makes, rfl, made⟩)),
    ⟨Nat.le_refl _, rfl, rfl, fun _ _ => rfl⟩, siblings.whole.congr rfl rfl, siblings.spares,
    _, Dict.get?_put_self _ _ _, ?_⟩
  refine ⟨siblings.whole.keeps_tip tip, History.mem_ancestors_iff.mpr .refl, List.forall_mem_nil _,
    fun id above _ => .inl above, ?_⟩
  rw [Depot.tipFiles_eq tip kept]
  exact .nil commit.files

namespace Gathering

/-- One merge of a branch that is apart from those merged before. -/
theorem change (siblings : start.Siblings base root branches own) (known : done ⊆ branches)
    (gathering : Gathering start base root own target done depot) {merge : String × String}
    (member : merge.2 ∈ branches) (reaches : start.Reaches merge.2)
    (apart : ∀ other ∈ done,
      Files.AreApart (start.tipFiles base) (start.tipFiles other) (start.tipFiles merge.2)) :
    ∃ unchanged after,
      Run.change target (siblingOperation start base merge) depot = (.ok unchanged, after) ∧
        Gathering start base root own target (merge.2 :: done) after := by
  obtain ⟨grown, whole, spares, tree, stands, gathered⟩ := gathering
  by_cases above : start.newest merge.2 ∈ depot.history.ancestors tree.head
  · refine ⟨true, depot, change_eq_ok_iff.mpr ?_, grown, whole, spares, tree, stands,
      gathered.of_known siblings known member apart above⟩
    -- The plan may leave such a merge out.  If it does not, there is nothing to do for it.
    cases repeated : (siblingOperation start base merge).isRepeatedMerge with
    | true => exact .inl ⟨rfl, rfl, rfl⟩
    | false =>
        obtain ⟨_, stored, _⟩ := siblings.exists_newest grown member
        have has : Has depot target (start.newest merge.2) :=
          ⟨Depot.keeps_of_stored stored, tree, stands, above⟩
        exact .inr (.inl ⟨merge.1, .upToDate, congrArg (Action.merge merge.1) repeated,
          has.merge_eq (grown.reaches reaches) (mergeMessage merge.1), rfl⟩)
  · obtain ⟨after, later, merged, there, gathers⟩ := gathered.merge siblings known grown whole
      spares member apart above stands reaches (mergeMessage merge.1)
    -- A merge is left out only if it repeats the root, which the tree has.
    have works : (siblingOperation start base merge).isRepeatedMerge = false := by
      refine Bool.eq_false_iff.mpr fun repeated => above ?_
      have same := List.mem_singleton.mp (List.contains_iff_mem.mp repeated)
      obtain ⟨_, same⟩ := Prod.mk.inj same
      have newest : start.newest merge.2 = root := same.trans (Depot.newest_eq siblings.tip)
      rw [newest]
      exact gathered.descends
    exact ⟨false, after, change_eq_ok_iff.mpr (.inr (.inl ⟨merge.1, .merged,
      congrArg (Action.merge merge.1) works, merged, rfl⟩)), grown.merge merged, whole.merge merged,
      spares.merge merged, later, there, gathers⟩

/-- Merges of branches that are apart from each other and from those merged before. -/
theorem changes (siblings : start.Siblings base root branches own)
    (reaches : ∀ branch ∈ branches, start.Reaches branch) {merges : List (String × String)}
    (members : ∀ merge ∈ merges, merge.2 ∈ branches)
    (between : merges.Pairwise fun first second =>
      Files.AreApart (start.tipFiles base) (start.tipFiles first.2) (start.tipFiles second.2))
    (known : done ⊆ branches)
    (apart : ∀ merge ∈ merges, ∀ other ∈ done,
      Files.AreApart (start.tipFiles base) (start.tipFiles other) (start.tipFiles merge.2))
    (gathering : Gathering start base root own target done depot) :
    ∃ entries after,
      Run.changes target (merges.map (siblingOperation start base)) depot = (.ok entries, after) ∧
        Gathering start base root own target ((merges.map Prod.snd).reverse ++ done) after := by
  induction merges generalizing done depot with
  | nil => exact ⟨[], depot, rfl, gathering⟩
  | cons merge others ih =>
      obtain ⟨member, members⟩ := List.forall_mem_cons.mp members
      obtain ⟨first, between⟩ := List.pairwise_cons.mp between
      obtain ⟨fromMerge, fromOthers⟩ := List.forall_mem_cons.mp apart
      obtain ⟨unchanged, next, changed, gathering⟩ :=
        gathering.change siblings known member (reaches _ member) fromMerge
      obtain ⟨entries, after, changes, gathering⟩ := ih members between
        (List.cons_subset.mpr ⟨member, known⟩)
        (fun other listed =>
          List.forall_mem_cons.mpr ⟨first other listed, fromOthers other listed⟩) gathering
      have ran := changes_cons_eq_ok_iff.mpr ⟨unchanged, next, entries, changed, changes, rfl⟩
      refine ⟨_, after, ran, ?_⟩
      rw [List.map_cons, List.reverse_cons, List.append_assoc]
      exact gathering

end Gathering

end Run

namespace Session

/-! ## Builds -/

section

variable {settings : Settings} {options : BuildOptions} {observer : Observer Depot} {target : Path}
  {world : World Depot} {header : Header} {base root : String} {merges : List (String × String)}

/-- Whether nothing besides the recipe and the depot keeps a build from going through: the settings
are sound, no earlier manifest is given, the token has not fired, the observer gives notices alone,
and a recipe can be written where the manifest goes. -/
structure IsReady (settings : Settings) (options : BuildOptions) (observer : Observer Depot)
    (target : Path) (world : World Depot) : Prop where
  sound : settings.flaw? = none
  unnamed : options.earlier = none
  quiet : ∃ token chosen, chooseToken settings options world = (.ok token, chosen) ∧
    chosen.hasFired token = false
  notes : observer.OnlyNotes
  saves : ∀ copy : Recipe, (copy.save (manifestPath settings options target) world.files).1 = .ok ()

/-- Branches beside each other that are apart are built into a tree with the changes of all. -/
theorem build_merging (pool : Pool) (ready : IsReady settings options observer target world)
    (clear : ∀ text ∈ header.version, '\x7b' ∉ text.toList) {branches : List String}
    {own : String → List String} (siblings : world.store.Siblings base root branches own)
    (free : world.store.tree? target = none) (reachesBase : world.store.Reaches base)
    (reaches : ∀ branch ∈ branches, world.store.Reaches branch)
    (members : ∀ merge ∈ merges, merge.2 ∈ branches)
    (apart : merges.Pairwise fun first second => Files.AreApart (world.store.tipFiles base)
      (world.store.tipFiles first.2) (world.store.tipFiles second.2)) :
    ∃ manifest after tree,
      buildWith pool Depot.backend settings options observer (.merging header base merges) target
          world =
        (.ok (.built manifest (manifestPath settings options target)), after) ∧
      after.store.tree? target = some tree ∧
      Files.Gathers (world.store.tipFiles base)
        (merges.map fun merge => world.store.tipFiles merge.2) tree.files := by
  obtain ⟨token, chosen, chooses, quiet⟩ := ready.quiet
  have answer : ∀ source ∈ (Recipe.merging header base merges).tree.branches,
      world.store.answer source = .ok (world.store.newest source.location) := by
    rw [Recipe.merging, Tree.branches, Instructions.branches_merging, List.forall_mem_cons,
      List.forall_mem_map]
    refine ⟨Depot.answer_tip reachesBase siblings.tip, fun merge listed => ?_⟩
    have member := members merge listed
    exact Depot.answer_tip (reaches _ member) (siblings.offshoot _ member).tip
  have planned : Plan.ofTree ((Recipe.merging header base merges).tree.map
      (Resolution.pinnedBy fun source => world.store.newest source.location)) =
        .ok (Plan.rootOperation ⟨⟨base, .tip⟩, world.store.newest base⟩ ::
          merges.map (Run.siblingOperation world.store base)) :=
    Plan.ofTree_eq_ok_iff.mpr ⟨_, _, Plan.ofBlock_merging _ _ _ _ _ _, rfl⟩
  have runs (count : Nat) : ∃ entries after,
      Run.changes target (Plan.rootOperation ⟨⟨base, .tip⟩, world.store.newest base⟩ ::
          merges.map (Run.siblingOperation world.store base))
        { world.store with lookups := count } = (.ok entries, after) ∧
      (Manifest.save ⟨header.version, entries⟩ (manifestPath settings options target)
        world.files).1 = .ok () ∧
      ∃ tree, after.tree? target = some tree ∧ Files.Gathers (world.store.tipFiles base)
        (merges.map fun merge => world.store.tipFiles merge.2) tree.files := by
    obtain ⟨between, made, gathering⟩ := Run.gathering_of_checkout siblings reachesBase free count
    obtain ⟨entries, after, changes, gathering⟩ := gathering.changes siblings reaches members apart
      (List.nil_subset _) fun _ _ => List.forall_mem_nil _
    rw [← Depot.newest_eq siblings.tip] at made
    have ran := Run.changes_cons_eq_ok_iff.mpr ⟨false, between, entries, made, changes, rfl⟩
    obtain ⟨tree, stands, gathered⟩ := gathering.stands
    refine ⟨_, after, ran, ?_, tree, stands, gathered.files.congr fun side => ?_⟩
    · rw [Manifest.save, Manifest.recipe?_of_records planned (Run.records_of_changes ran)]
      exact ready.saves _
    · rw [List.append_nil, List.map_reverse, List.mem_reverse, List.map_map]
      exact Iff.rfl
  obtain ⟨entries, after, builds, tree, stands, gathers⟩ := @build_of_runs
    (.merging header base merges) settings options observer target world pool ready.sound
    ready.unnamed token chosen chooses quiet ready.notes _ answer clear _ planned _ runs
  exact ⟨_, after, tree, builds, stands, gathers⟩

/-- Branches that were each begun at the newest revision of a base and only committed to since can
be merged into the base in any order, when no two of them have changed the same path and no commit
was given the id of a merge.  All orders give a tree with the same files, however the workers share
the look-ups: those of the base with the changes of all branches. -/
theorem sibling_merges_commute {deeds : List Depot.Deed}
    (fresh : Depot.AreFresh (fun id => ∀ number, id ≠ Depot.mergeId number) .empty deeds)
    (store : world.store = Depot.empty.performAll deeds) (tip : world.store.tip? base = some root)
    (sprouts : ∀ merge ∈ merges, Depot.Sprouts deeds base root merge.2)
    (apart : merges.Pairwise fun first second => Files.AreApart (world.store.tipFiles base)
      (world.store.tipFiles first.2) (world.store.tipFiles second.2))
    (ready : IsReady settings options observer target world)
    (clear : ∀ text ∈ header.version, '\x7b' ∉ text.toList)
    (free : world.store.tree? target = none) (reachesBase : world.store.Reaches base)
    (reaches : ∀ merge ∈ merges, world.store.Reaches merge.2) :
    ∃ files,
      Files.Gathers (world.store.tipFiles base)
        (merges.map fun merge => world.store.tipFiles merge.2) files ∧
      ∀ (pool : Pool) (order : List (String × String)), order.Perm merges → ∃ manifest after tree,
        buildWith pool Depot.backend settings options observer (.merging header base order) target
            world =
          (.ok (.built manifest (manifestPath settings options target)), after) ∧
        after.store.tree? target = some tree ∧
        ∀ path, tree.files.get? path = files.get? path := by
  rw [store] at tip
  obtain ⟨own, siblings⟩ := Depot.exists_siblings (fun _ allowed => allowed) fresh tip
    (List.forall_mem_map.mpr sprouts)
  rw [← store] at siblings
  have builds (pool : Pool) (order : List (String × String)) (same : order.Perm merges) :=
    @build_merging _ _ _ _ _ header _ _ order pool ready clear _ _ siblings free reachesBase
      (List.forall_mem_map.mpr reaches)
      (fun merge listed => List.mem_map_of_mem (same.mem_iff.mp listed))
      (same.symm.pairwise apart Files.AreApart.symm)
  obtain ⟨_, _, tree, _, _, gathers⟩ := builds .inTurn merges (.refl merges)
  refine ⟨tree.files, gathers, fun pool order same => ?_⟩
  obtain ⟨manifest, after, other, built, stands, gathersToo⟩ := builds pool order same
  refine ⟨manifest, after, other, built, stands, (gathersToo.congr fun side => ?_).get?_eq gathers⟩
  exact (same.map _).mem_iff.symm

end

/-- A base with one commit, and two branches of it with one commit each. -/
def siblingDeeds (first : String) : List Depot.Deed :=
  [.commit "base" first ⟨86400, 0⟩ [("README", "base")], .branchFrom "one" "base",
    .commit "one" "o1" ⟨172800, 0⟩ [("one", "one")], .branchFrom "two" "base",
    .commit "two" "t1" ⟨172800, 0⟩ [("two", "two")]]

def siblingDepot (first : String) : Depot :=
  Depot.empty.performAll (siblingDeeds first)

def siblingMerges : List (String × String) :=
  [("one", "one"), ("two", "two")]

theorem sprouts_siblingMerges (first : String) :
    ∀ merge ∈ siblingMerges, Depot.Sprouts (siblingDeeds first) "base" first merge.2 := by
  have one : ∀ source, Depot.Deed.branchFrom "one" source ∉ (siblingDeeds first).drop 2 := by
    simp [siblingDeeds]
  have two : ∀ source, Depot.Deed.branchFrom "two" source ∉ (siblingDeeds first).drop 4 := by
    simp [siblingDeeds]
  exact List.forall_mem_cons.mpr ⟨⟨(siblingDeeds first).take 1, _, rfl, rfl, one⟩,
    List.forall_mem_singleton.mpr ⟨(siblingDeeds first).take 3, _, rfl, rfl, two⟩⟩

theorem apart_siblingMerges {first : String} (either : first = "b1" ∨ first = "merge-1") :
    siblingMerges.Pairwise fun one two => Files.AreApart ((siblingDepot first).tipFiles "base")
      ((siblingDepot first).tipFiles one.2) ((siblingDepot first).tipFiles two.2) := by
  refine List.pairwise_pair.mpr ?_
  rcases either with rfl | rfl
  · exact Files.areApart_put _ (by decide) "one" "two"
  · exact Files.areApart_put _ (by decide) "one" "two"

theorem isReady_siblingDepot (first : String) :
    IsReady .standard ⟨none, none, none, ⟨0, 0⟩⟩ .silent ⟨"out"⟩
      (.initial (siblingDepot first)) where
  sound := by decide +kernel
  unnamed := rfl
  quiet := ⟨_, _, rfl, rfl⟩
  notes := ⟨fun _ _ => rfl, fun _ _ => rfl, fun _ _ => rfl⟩
  saves := fun _ => rfl

/-- Both orders have all files. -/
theorem sibling_merges_commute_siblingMerges :
    ∃ files : Files, files.get? "README" = some "base" ∧ files.get? "one" = some "one" ∧
      files.get? "two" = some "two" ∧
      ∀ (pool : Pool) (order : List (String × String)), order.Perm siblingMerges →
        ∃ manifest after tree,
          buildWith pool Depot.backend .standard ⟨none, none, none, ⟨0, 0⟩⟩ .silent
              (.merging ⟨"0.4", none⟩ "base" order) ⟨"out"⟩ (.initial (siblingDepot "b1")) =
            (.ok (.built manifest ⟨"out/recipe.manifest"⟩), after) ∧
          after.store.tree? ⟨"out"⟩ = some tree ∧
          ∀ path, tree.files.get? path = files.get? path := by
  have fresh : Depot.AreFresh (fun id => ∀ number, id ≠ Depot.mergeId number) .empty
      (siblingDeeds "b1") :=
    ⟨⟨Depot.ne_mergeId (by decide), fun kept => (by cases kept)⟩, trivial,
      ⟨Depot.ne_mergeId (by decide), fun kept => (by cases kept)⟩, trivial,
      ⟨Depot.ne_mergeId (by decide), fun kept => (by cases kept)⟩, trivial⟩
  have reaches (branch : String) : (siblingDepot "b1").Reaches branch :=
    fun _ impossible => (by cases impossible)
  obtain ⟨files, gathers, orders⟩ := @sibling_merges_commute .standard ⟨none, none, none, ⟨0, 0⟩⟩
    .silent ⟨"out"⟩ (.initial (siblingDepot "b1")) ⟨"0.4", none⟩ "base" "b1" siblingMerges _ fresh
    rfl rfl (sprouts_siblingMerges "b1") (apart_siblingMerges (.inl rfl)) (isReady_siblingDepot "b1")
    (fun _ impossible => by cases impossible) rfl (reaches _) fun _ _ => reaches _
  refine ⟨files, gathers.kept "README" ?_, ?_, ?_, orders⟩
  · decide +kernel
  · exact gathers.brought _ List.mem_cons_self "one" (by decide +kernel)
  · exact gathers.brought _ (List.mem_cons_of_mem _ List.mem_cons_self) "two" (by decide +kernel)

/-- The plan for the merges, the base being at a commit that was given the id of a merge. -/
def siblingOperations : List Operation :=
  [⟨.checkout, "base", "merge-1", ⟨""⟩, 0⟩, ⟨.merge "one" false, "one", "o1", ⟨""⟩, 0⟩,
    ⟨.merge "two" false, "two", "t1", ⟨""⟩, 0⟩]

def siblingEntries : List ManifestEntry :=
  siblingOperations.map (ManifestEntry.ofOperation · false)

def siblingFiles : Files :=
  ⟨[("README", "base")]⟩

def siblingTree (count : Nat) : Depot :=
  { siblingDepot "merge-1" with
    lookups := count
    trees := ⟨[([.name "out"], ⟨"base", "merge-1", siblingFiles⟩)]⟩ }

def siblingCommit : Commit :=
  ⟨["merge-1", "o1"], ⟨172800, 0⟩, "Merge one",
    Files.merged siblingFiles siblingFiles (siblingFiles.put "one" "one")⟩

/-- The depot with that merge, which has got the id of its own first parent. -/
def siblingMerge (count : Nat) : Depot :=
  (siblingTree count).withMerge ⟨"out"⟩ "base" siblingCommit

theorem merge_one_siblingTree (count : Nat) :
    Depot.merge ⟨"out"⟩ "one" "o1" (Run.mergeMessage "one") (siblingTree count) =
      (.ok .merged, siblingMerge count) := by
  have unknown : "o1" ∉ (siblingTree count).history.ancestors "merge-1" := by
    rw [History.ancestors_of_parents_eq_nil rfl, List.mem_singleton]
    decide
  exact @Depot.merge_of_child (siblingTree count) "o1" ⟨"out"⟩ "one" (Run.mergeMessage "one")
    ⟨"base", "merge-1", siblingFiles⟩ _ _ (fun _ impossible => by cases impossible) rfl rfl rfl rfl
    unknown (by decide +kernel)

/-- The second merge starts from the first one, for want of the base, and takes what the first one
brought for a file that the second branch has removed. -/
theorem merge_two_siblingMerge (count : Nat) :
    ∃ after, Depot.merge ⟨"out"⟩ "two" "t1" (Run.mergeMessage "two") (siblingMerge count) =
        (.ok .merged, after) ∧
      ∃ tree, after.tree? ⟨"out"⟩ = some tree ∧ tree.files.get? "one" = none := by
  have id : Depot.mergeId 1 = "merge-1" := by decide
  have stands : (siblingMerge count).tree? ⟨"out"⟩ =
      some ⟨"base", "merge-1", siblingCommit.files⟩ :=
    (Dict.get?_put_self _ _ _).trans (congrArg (some <| WorkingTree.mk "base" · _) id)
  have own : (siblingMerge count).history.parents "merge-1" = ["merge-1", "o1"] :=
    (History.parents_put _ _ _ _).trans (if_pos id)
  have closed : ∀ id ∈ ["merge-1", "o1"],
      (siblingMerge count).history.parents id ⊆ ["merge-1", "o1"] :=
    List.forall_mem_cons.mpr ⟨own ▸ List.Subset.refl _,
      List.forall_mem_singleton.mpr (List.cons_subset_cons _ (List.nil_subset _))⟩
  have unknown : "t1" ∉ (siblingMerge count).history.ancestors "merge-1" :=
    fun above => absurd (History.ancestors_subset closed List.mem_cons_self above) (by decide)
  have lost : (Files.merged siblingCommit.files siblingCommit.files
      (siblingFiles.put "two" "two")).get? "one" = none := by decide +kernel
  have merged := @Depot.merge_of_child (siblingMerge count) "t1" ⟨"out"⟩ "two"
    (Run.mergeMessage "two") ⟨"base", "merge-1", siblingCommit.files⟩ siblingCommit
    ⟨["merge-1"], ⟨172800, 0⟩, "commit t1", siblingFiles.put "two" "two"⟩
    (fun _ impossible => by cases impossible) stands (Dict.get?_put_self _ (Depot.mergeId 1) _) rfl
    rfl unknown (by decide +kernel)
  exact ⟨_, merged, _, Dict.get?_put_self _ _ _, lost⟩

theorem changes_siblingOperations (count : Nat) :
    ∃ after, Run.changes ⟨"out"⟩ siblingOperations { siblingDepot "merge-1" with lookups := count } =
        (.ok siblingEntries, after) ∧
      ∃ tree, after.tree? ⟨"out"⟩ = some tree ∧ tree.files.get? "one" = none := by
  have made : Run.change ⟨"out"⟩ ⟨.checkout, "base", "merge-1", ⟨""⟩, 0⟩
      { siblingDepot "merge-1" with lookups := count } = (.ok false, siblingTree count) := rfl
  have one : Run.change ⟨"out"⟩ ⟨.merge "one" false, "one", "o1", ⟨""⟩, 0⟩ (siblingTree count) =
      (.ok false, siblingMerge count) := Run.change_eq_ok_iff.mpr
    (.inr (.inl ⟨"one", .merged, rfl, merge_one_siblingTree count, rfl⟩))
  obtain ⟨after, merged, lost⟩ := merge_two_siblingMerge count
  have two : Run.change ⟨"out"⟩ ⟨.merge "two" false, "two", "t1", ⟨""⟩, 0⟩ (siblingMerge count) =
      (.ok false, after) :=
    Run.change_eq_ok_iff.mpr (.inr (.inl ⟨"two", .merged, rfl, merged, rfl⟩))
  refine ⟨after, Run.changes_cons_eq_ok_iff.mpr ⟨false, _, _, made, ?_, rfl⟩, lost⟩
  refine Run.changes_cons_eq_ok_iff.mpr ⟨false, _, _, one, ?_, rfl⟩
  exact Run.changes_cons_eq_ok_iff.mpr ⟨false, after, [], two, rfl, rfl⟩

/-- Where the base stands at a commit that was given the id of the first merge, the second merge
starts from that merge, and what the first one brought is lost. -/
theorem one_lost_of_id_of_merge :
    Depot.AreFresh (fun _ => True) .empty (siblingDeeds "merge-1") ∧
      (∀ branch id time changes, .commit branch id time changes ∈ siblingDeeds "merge-1" →
        branch ≠ "base" → ∀ number, id ≠ Depot.mergeId number) ∧
      (siblingDepot "merge-1").tip? "base" = some "merge-1" ∧
      (∀ merge ∈ siblingMerges,
        Depot.Sprouts (siblingDeeds "merge-1") "base" "merge-1" merge.2) ∧
      (siblingMerges.Pairwise fun first second =>
        Files.AreApart ((siblingDepot "merge-1").tipFiles "base")
          ((siblingDepot "merge-1").tipFiles first.2)
          ((siblingDepot "merge-1").tipFiles second.2)) ∧
      ((siblingDepot "merge-1").tipFiles "one").get? "one" = some "one" ∧
      ∀ pool : Pool, ∃ manifest after tree,
        buildWith pool Depot.backend .standard ⟨none, none, none, ⟨0, 0⟩⟩ .silent
            (.merging ⟨"0.4", none⟩ "base" siblingMerges) ⟨"out"⟩
            (.initial (siblingDepot "merge-1")) =
          (.ok (.built manifest ⟨"out/recipe.manifest"⟩), after) ∧
        after.store.tree? ⟨"out"⟩ = some tree ∧ tree.files.get? "one" = none := by
  have fresh : Depot.AreFresh (fun _ => True) .empty (siblingDeeds "merge-1") :=
    ⟨⟨trivial, fun kept => (by cases kept)⟩, trivial, ⟨trivial, fun kept => (by cases kept)⟩,
      trivial, ⟨trivial, fun kept => (by cases kept)⟩, trivial⟩
  have others (branch id : String) (time : Time.Instant) (changes : List (String × String))
      (listed : .commit branch id time changes ∈ siblingDeeds "merge-1") (other : branch ≠ "base") :
      ∀ number, id ≠ Depot.mergeId number := by
    simp only [siblingDeeds, List.mem_cons, Depot.Deed.commit.injEq, List.not_mem_nil, reduceCtorEq,
      false_or, or_false] at listed
    rcases listed with ⟨same, _⟩ | ⟨_, rfl, _⟩ | ⟨_, rfl, _⟩
    · exact absurd same other
    · exact Depot.ne_mergeId (by decide)
    · exact Depot.ne_mergeId (by decide)
  refine ⟨fresh, others, rfl, sprouts_siblingMerges _, apart_siblingMerges (.inr rfl), rfl,
    fun pool => ?_⟩
  have ready := isReady_siblingDepot "merge-1"
  obtain ⟨token, chosen, chooses, quiet⟩ := ready.quiet
  have answer : ∀ source ∈ (Recipe.merging ⟨"0.4", none⟩ "base" siblingMerges).tree.branches,
      (siblingDepot "merge-1").answer source =
        .ok ((siblingDepot "merge-1").newest source.location) := by
    refine List.forall_mem_cons.mpr ⟨rfl, List.forall_mem_cons.mpr ⟨rfl, ?_⟩⟩
    exact List.forall_mem_singleton.mpr rfl
  have planned : Plan.ofTree ((Recipe.merging ⟨"0.4", none⟩ "base" siblingMerges).tree.map
      (Resolution.pinnedBy fun source => (siblingDepot "merge-1").newest source.location)) =
        .ok siblingOperations := rfl
  obtain ⟨after, builds, _, stands, lost⟩ := @build_of_changes
    (.merging ⟨"0.4", none⟩ "base" siblingMerges) .standard ⟨none, none, none, ⟨0, 0⟩⟩ .silent ⟨"out"⟩
    (.initial (siblingDepot "merge-1")) pool ready.sound rfl token chosen chooses quiet ready.notes _
    answer (fun _ impossible => by cases impossible) _ planned siblingEntries _
    changes_siblingOperations (ready.saves _)
  exact ⟨_, after, _, builds, stands, lost⟩

end Session

end SourceRecipe
