import SourceRecipe.Proofs.Build.Copies
import SourceRecipe.Proofs.Build.Unchanged

/-!
# Building from a manifest

The manifest of a build on a depot asks for exactly the revisions used.  To build from it once more
goes through, with the same manifest and the same files, exactly when each of these revisions is in
the branch that it is asked of.  A tag may point elsewhere, and what it points at can be merged but
not asked for.
-/

namespace SourceRecipe

/-- The revision that a branch is asked for; none where it is asked for in another way. -/
def Source.revisionAsked (source : Source) : String :=
  source.specifier.revision?.getD ""

namespace Session

/-! ## What a build has carried out -/

/-- What a build on a depot has found and done: the revisions of the branches, the plan for them, and
the entries of the plan. -/
structure Carried (recipe : Recipe) (target : Path) (before : Depot) (answers : Source → String)
    (operations : List Operation) (entries : List ManifestEntry) (after : Depot) : Prop where
  answer : ∀ source ∈ recipe.tree.branches, before.answer source = .ok (answers source)
  planned : Plan.ofTree (recipe.tree.map (Resolution.pinnedBy answers)) = .ok operations
  changed : ∃ count, Run.changes target operations { before with lookups := count } =
    (.ok entries, after)

/-- Whether the trees of some entries stand below `elsewhere` with the branches and the files that
they have below `root`, and no other tree has changed. -/
structure RepeatsTrees (root elsewhere : Path) (entries : List ManifestEntry)
    (before after : Depot) : Prop where
  same : ∀ entry ∈ entries, ∃ (place : Path) (tree : WorkingTree) (head : String),
    entry.target = place.onSystem ∧
    before.tree? (Run.treePath root place) = some tree ∧
    after.tree? (Run.treePath elsewhere place) = some { tree with head := head }
  others : ∀ path : Path,
    (∀ place : Path, (∃ entry ∈ entries, entry.target = place.onSystem) →
      (Run.treePath elsewhere place).parts ≠ path.parts) →
    after.tree? path = before.tree? path

theorem repeatsTrees_of_copies {f : String → String} {root elsewhere : Path}
    {operations : List Operation} {entries : List ManifestEntry} {depot after : Depot}
    (records : Manifest.Records operations entries)
    (copies : Run.Copies f root elsewhere depot operations depot after) :
    RepeatsTrees root elsewhere entries depot after := by
  constructor
  · intro entry member
    obtain ⟨operation, planned, unchanged, rfl⟩ := records.exists_of_mem member
    obtain ⟨tree, found, copied⟩ := copies.made operation planned
    exact ⟨operation.target, tree, f tree.head, rfl, found, copied⟩
  · intro path free
    refine copies.rest path fun operation planned => ?_
    obtain ⟨unchanged, member⟩ := records.ofOperation_mem planned
    exact free operation.target ⟨_, member, rfl⟩

namespace Carried

variable {recipe : Recipe} {target elsewhere : Path} {before after : Depot}
  {answers : Source → String} {operations : List Operation} {entries : List ManifestEntry}
  {entry : ManifestEntry}

theorem records (carried : Carried recipe target before answers operations entries after) :
    Manifest.Records operations entries :=
  carried.changed.elim fun _ ran => Run.records_of_changes ran

theorem grown (carried : Carried recipe target before answers operations entries after) :
    before.Grown after := by
  obtain ⟨_, ran⟩ := carried.changed
  obtain ⟨merges, branches, failures, history⟩ := Run.grown_of_changes ran
  exact ⟨merges, branches, failures, history⟩

/-- The manifest asks for the branches of the recipe at the revisions found. -/
theorem sources (carried : Carried recipe target before answers operations entries after) :
    entries.map ManifestEntry.source =
      (recipe.tree.map (Resolution.pinnedBy answers)).exactly.branches :=
  Manifest.map_source_of_records carried.planned carried.records

theorem exists_source (carried : Carried recipe target before answers operations entries after)
    (member : entry ∈ entries) :
    ∃ source ∈ recipe.tree.branches,
      entry.branch = source.location ∧ entry.revision = answers source := by
  have asked := List.mem_map_of_mem (f := ManifestEntry.source) member
  rw [carried.sources, Tree.exactly, Tree.map_map, Tree.branches_map] at asked
  obtain ⟨source, listed, same⟩ := List.mem_map.mp asked
  obtain ⟨location, revision⟩ := Source.mk.inj same
  exact ⟨source, listed, location.symm, (Specifier.revision.inj revision).symm⟩

/-- Only what a tag points at can be missing from its branch. -/
theorem tag_of_not_mem (carried : Carried recipe target before answers operations entries after)
    (member : entry ∈ entries) (outside : entry.revision ∉ after.revisions entry.branch) :
    ∃ name, ⟨entry.branch, .tag name⟩ ∈ recipe.tree.branches ∧
      before.tags.get? (entry.branch, name) = some entry.revision := by
  obtain ⟨⟨branch, specifier⟩, listed, location, revision⟩ := carried.exists_source member
  obtain ⟨_, revisions, line, found⟩ := Depot.answer_eq_ok_iff.mp (carried.answer _ listed)
  rw [← revision] at found
  rw [carried.grown.revisions, location, Depot.revisions_of_line line] at outside
  rcases Depot.mem_of_find found with known | ⟨name, rfl, tagged⟩
  · exact absurd known outside
  · rw [location]
    exact ⟨name, listed, tagged⟩

/-- Revisions that are in their branches are found there again. -/
theorem answer_again (carried : Carried recipe target before answers operations entries after)
    (members : ∀ entry ∈ entries, entry.revision ∈ after.revisions entry.branch) :
    ∀ source ∈ (recipe.tree.map (Resolution.pinnedBy answers)).exactly.branches,
      after.answer source = .ok source.revisionAsked := by
  rw [← carried.sources, List.forall_mem_map]
  intro entry member
  obtain ⟨source, listed, location, _⟩ := carried.exists_source member
  have reaches := (Depot.answer_eq_ok_iff.mp (carried.answer source listed)).1
  rw [Depot.Reaches, ← carried.grown.failures, ← location] at reaches
  exact Depot.answer_revision_eq_ok_iff.mpr ⟨reaches, members entry member, rfl⟩

/-- The plan for the revisions asked for is the plan for the revisions found. -/
theorem planned_again (carried : Carried recipe target before answers operations entries after) :
    Plan.ofTree ((recipe.tree.map (Resolution.pinnedBy answers)).exactly.map
      (Resolution.pinnedBy Source.revisionAsked)) = .ok operations := by
  have keys (branch : Pinned) :
      (Resolution.pinnedBy Source.revisionAsked branch.exactly).key = branch.key := rfl
  rw [Tree.exactly, Tree.map_map]
  exact (Plan.ofTree_map keys _).trans carried.planned

/-- The operations go through once more below a root where nothing stands, when all revisions are in
their branches. -/
theorem changes_again (carried : Carried recipe target before answers operations entries after)
    (whole : before.IsWhole) (spares : before.SparesMerges)
    (empty : ∀ path : Path, elsewhere.parts <+: path.parts → after.tree? path = none)
    (members : ∀ entry ∈ entries, entry.revision ∈ after.revisions entry.branch) (count : Nat) :
    ∃ copy, Run.changes elsewhere operations { after with lookups := count } = (.ok entries, copy) ∧
      RepeatsTrees target elsewhere entries after copy := by
  obtain ⟨earlier, ran⟩ := carried.changed
  obtain ⟨fits, placed⟩ := Plan.ofTree_fits carried.planned
  have counted : before.OnlyCounted { before with lookups := earlier } :=
    ⟨rfl, rfl, rfl, rfl, Nat.le_refl _⟩
  have kept : ∀ operation ∈ operations, before.Keeps operation.revision := by
    intro operation member
    obtain ⟨unchanged, member⟩ := carried.records.ofOperation_mem member
    have known := members _ member
    rw [carried.grown.revisions] at known
    exact whole.lines _ _ known
  obtain ⟨f, copy, ranThere, copies⟩ := Run.changes_again (whole.counted counted)
    (spares.counted counted) fits (fun operation member => (placed operation member).1) kept ran count
    empty
  exact ⟨copy, ranThere, repeatsTrees_of_copies carried.records copies⟩

end Carried

/-! ## Builds -/

section

variable {pool : Pool} {recipe : Recipe} {settings : Settings} {options : BuildOptions}
  {observer : Observer Depot} {target path : Path} {world built after : World Depot}
  {manifest : Manifest}

/-- A build on a depot that goes through gives a manifest with the entries of the plan and a version
without placeholders. -/
theorem carried_of_build (keeps : observer.KeepsStore)
    (builds : buildWith pool Depot.backend settings options observer recipe target world =
      (.ok (.built manifest path), built)) :
    ∃ answers operations entries version,
      Carried recipe target world.store answers operations entries built.store ∧
      manifest = ⟨version, entries⟩ ∧ ∀ text ∈ version, '\x7b' ∉ text.toList := by
  obtain ⟨_, rfl, token, chosen, tree, resolved, compared, version, named, operations, ran, chose,
    pins, stops, versioned, planned, carried, written⟩ := buildWith_eq_built_iff.mp builds
  obtain ⟨answers, rfl, answer, looked⟩ := pinnedWith_sound pins
  have begins := (chooseToken_keeps chose).1
  rw [begins] at answer
  obtain ⟨count, counted⟩ := looked.store
  obtain ⟨clear, kept⟩ := versionOf_eq_ok (fun world => world.store = resolved.store)
    (fun _ => True) (fun _ _ _ _ kept counted => by rw [revnoOf_depot_keeps counted]; exact kept)
    (fun _ _ _ kept => kept) (fun _ _ _ _ => trivial) versioned (fun _ _ => trivial)
    (stopsEarly_keeps stops)
  obtain ⟨entries, rfl, changed⟩ := Run.run_depot_eq_ok keeps carried
  obtain ⟨files, _, rfl⟩ := writeManifest_eq_ok_iff.mp written
  rw [kept, counted, begins] at changed
  exact ⟨answers, operations, entries, version, ⟨answer, planned, count, changed⟩, rfl,
    fun text given => (clear text given).2⟩

/-- A build of a recipe whose version has no placeholder goes through when its look-ups have
answers, and, however often a revision was looked up, its operations succeed and their manifest can
be written. -/
theorem build_of_runs (pool : Pool) (sound : settings.flaw? = none)
    (unnamed : options.earlier = none) {token : Token} {chosen : World Depot}
    (chooses : chooseToken settings options world = (.ok token, chosen))
    (quiet : chosen.hasFired token = false) (notes : observer.OnlyNotes) {answers : Source → String}
    (answer : ∀ source ∈ recipe.tree.branches, world.store.answer source = .ok (answers source))
    (clear : ∀ text ∈ recipe.header.version, '\x7b' ∉ text.toList) {operations : List Operation}
    (planned : Plan.ofTree (recipe.tree.map (Resolution.pinnedBy answers)) = .ok operations)
    {Holds : List ManifestEntry → Depot → Prop}
    (runs : ∀ count, ∃ entries after,
      Run.changes target operations { world.store with lookups := count } = (.ok entries, after) ∧
      (Manifest.save ⟨recipe.header.version, entries⟩ (manifestPath settings options target)
        world.files).1 = .ok () ∧
      Holds entries after) :
    ∃ entries after, buildWith pool Depot.backend settings options observer recipe target world =
        (.ok (.built ⟨recipe.header.version, entries⟩ (manifestPath settings options target)),
          after) ∧
      Holds entries after.store := by
  obtain ⟨store, files⟩ := chooseToken_keeps chooses
  rw [← store] at answer
  obtain ⟨resolved, pins, looked⟩ := pinnedWith_complete pool settings.jobs quiet answer
  obtain ⟨count, counted⟩ := looked.store
  obtain ⟨named, versioned, namedStore, namedSignals, namedFiles⟩ :=
    @versionOf_of_not_mem _ Depot.backend token (recipe.tree.map (Resolution.pinnedBy answers)) _
      clear options.start resolved
  have silent : named.hasFired token = false := by
    rw [World.hasFired, namedSignals, looked.signals]
    exact quiet
  obtain ⟨entries, depot, changed, saves, holds⟩ := runs count
  rw [← store, ← counted, ← namedStore] at changed
  obtain ⟨after, carried, rfl, afterFiles⟩ :=
    Run.run_depot_of_changes notes recipe.header.version silent changed
  rw [← files, ← looked.files, ← namedFiles, ← afterFiles] at saves
  obtain ⟨final, saved⟩ : ∃ final, Manifest.save ⟨recipe.header.version, entries⟩
      (manifestPath settings options target) after.files = (.ok (), final) := ⟨_, Prod.ext saves rfl⟩
  have written := writeManifest_eq_ok_iff.mpr ⟨final, saved, rfl⟩
  refine ⟨entries, { after with files := final }, buildWith_eq_built_iff.mpr ⟨sound, rfl, ?_⟩, holds⟩
  exact ⟨token, chosen, _, resolved, resolved, _, named, operations, after, chooses, pins,
    stopsEarly_of_none unnamed _ _, versioned, planned, carried, written⟩

/-- A build goes through with the entries that its operations always have. -/
theorem build_of_changes (pool : Pool) (sound : settings.flaw? = none)
    (unnamed : options.earlier = none) {token : Token} {chosen : World Depot}
    (chooses : chooseToken settings options world = (.ok token, chosen))
    (quiet : chosen.hasFired token = false) (notes : observer.OnlyNotes) {answers : Source → String}
    (answer : ∀ source ∈ recipe.tree.branches, world.store.answer source = .ok (answers source))
    (clear : ∀ text ∈ recipe.header.version, '\x7b' ∉ text.toList) {operations : List Operation}
    (planned : Plan.ofTree (recipe.tree.map (Resolution.pinnedBy answers)) = .ok operations)
    {entries : List ManifestEntry} {Holds : Depot → Prop}
    (ran : ∀ count, ∃ after, Run.changes target operations { world.store with lookups := count } =
      (.ok entries, after) ∧ Holds after)
    (saves : (Manifest.save ⟨recipe.header.version, entries⟩ (manifestPath settings options target)
      world.files).1 = .ok ()) :
    ∃ after, buildWith pool Depot.backend settings options observer recipe target world =
        (.ok (.built ⟨recipe.header.version, entries⟩ (manifestPath settings options target)),
          after) ∧
      Holds after.store := by
  obtain ⟨_, after, builds, rfl, holds⟩ := @build_of_runs _ _ _ _ target _ pool sound unnamed _ _
    chooses quiet notes _ answer clear _ planned (fun found depot => found = entries ∧ Holds depot)
    fun count => by
      obtain ⟨depot, changed, holds⟩ := ran count
      exact ⟨entries, depot, changed, saves, rfl, holds⟩
  exact ⟨after, builds, holds⟩

/-- A build that goes through found every revision that it was asked for in its branch. -/
theorem mem_revisions_of_build {outcome : BuildOutcome}
    (builds : buildWith pool Depot.backend settings options observer recipe target world =
      (.ok outcome, after))
    {branch revision : String} (asked : ⟨branch, .revision revision⟩ ∈ recipe.tree.branches) :
    revision ∈ world.store.revisions branch := by
  obtain ⟨token, chosen, tree, resolved, chose, pins⟩ := pins_of_buildWith builds
  obtain ⟨answers, _, answer, _⟩ := pinnedWith_sound pins
  obtain ⟨_, member, _⟩ := Depot.answer_revision_eq_ok_iff.mp (answer _ asked)
  rw [(chooseToken_keeps chose).1] at member
  exact member

/-- The manifest of a build on a depot describes a recipe.  To build from it below a root where
nothing stands goes through exactly when every revision used is in its branch, and then gives the
same manifest and the same files below the other root, however the workers of either build share the
look-ups.  Only what a tag points at can be missing from its branch. -/
theorem rebuilt_iff_revisions_in_branches
    (reached : Depot.Reached (fun id => ∀ number, id ≠ Depot.mergeId number) world.store)
    (keeps : observer.KeepsStore)
    (builds : buildWith pool Depot.backend settings options observer recipe target world =
      (.ok (.built manifest path), built))
    {poolAgain : Pool} {again : Settings} {other : BuildOptions} {watcher : Observer Depot}
    {elsewhere : Path} {later chosen : World Depot} {token : Token}
    (same : later.store = built.store)
    (empty : ∀ path : Path, elsewhere.parts <+: path.parts → later.store.tree? path = none)
    (sound : again.flaw? = none) (unnamed : other.earlier = none)
    (chooses : chooseToken again other later = (.ok token, chosen))
    (quiet : chosen.hasFired token = false) (notes : watcher.OnlyNotes)
    (saves : (manifest.save (manifestPath again other elsewhere) later.files).1 = .ok ()) :
    ∃ copy, manifest.recipe? = some copy ∧
      ((∃ after, buildWith poolAgain Depot.backend again other watcher copy elsewhere later =
          (.ok (.built manifest (manifestPath again other elsewhere)), after)) ↔
        ∀ entry ∈ manifest.entries, entry.revision ∈ later.store.revisions entry.branch) ∧
      (∀ entry ∈ manifest.entries, entry.revision ∉ later.store.revisions entry.branch →
        ∃ name, ⟨entry.branch, .tag name⟩ ∈ recipe.tree.branches ∧
          world.store.tags.get? (entry.branch, name) = some entry.revision) ∧
      ∀ outcome after, buildWith poolAgain Depot.backend again other watcher copy elsewhere later =
          (.ok outcome, after) →
        outcome = .built manifest (manifestPath again other elsewhere) ∧
          RepeatsTrees target elsewhere manifest.entries later.store after.store := by
  obtain ⟨answers, operations, entries, version, carried, rfl, clear⟩ := carried_of_build keeps builds
  rw [← same] at carried
  have described := Manifest.recipe?_of_records carried.planned carried.records version
  have rebuilds (members : ∀ entry ∈ entries, entry.revision ∈ later.store.revisions entry.branch) :=
    @build_of_changes ⟨⟨Header.newestFormat, version⟩, _⟩ again other watcher elsewhere later
      poolAgain sound unnamed token chosen chooses quiet notes _ (carried.answer_again members) clear
      operations carried.planned_again entries _ (carried.changes_again reached.isWhole
        (reached.sparesMerges fun _ allowed => allowed) empty members) saves
  have members {outcome : BuildOutcome} {after : World Depot}
      (builds : buildWith poolAgain Depot.backend again other watcher
        ⟨⟨Header.newestFormat, version⟩,
          (recipe.tree.map (Resolution.pinnedBy answers)).exactly⟩ elsewhere later =
          (.ok outcome, after)) :
      ∀ entry ∈ entries, entry.revision ∈ later.store.revisions entry.branch := by
    intro entry member
    refine mem_revisions_of_build builds ?_
    rw [← carried.sources]
    exact List.mem_map_of_mem member
  refine ⟨_, described, ⟨?_, ?_⟩, fun entry member => carried.tag_of_not_mem member, ?_⟩
  · rintro ⟨after, builds⟩
    exact members builds
  · intro each
    obtain ⟨after, builds, _⟩ := rebuilds each
    exact ⟨after, builds⟩
  · intro outcome after builds
    obtain ⟨_, rebuilt, repeats⟩ := rebuilds (members builds)
    cases builds.symm.trans rebuilt
    exact ⟨rfl, repeats⟩

end

/-- Three branches with one file each, and a tag of the second one. -/
def taggedDepot (revision : String) : Depot :=
  (((Depot.empty.commit "base" "b1" ⟨0, 0⟩ [("README", "1")]).commit "feature" "f1" ⟨5, 0⟩
    [("feature.c", "2")]).commit "other" "o1" ⟨9, 0⟩ [("other.c", "3")]).setTag "feature" "v1"
    revision

def taggedRecipe : Recipe :=
  ⟨⟨"0.4", none⟩, ⟨⟨"base", .tip⟩, .step "feature" .merge ⟨"feature", .tag "v1"⟩ .done .done⟩⟩

def taggedManifest (revision : String) : Manifest :=
  ⟨none, [⟨.checkout, "base", none, "b1", Path.onSystem ⟨""⟩, none, 0, false⟩,
    ⟨.merge, "feature", some "feature", revision, Path.onSystem ⟨""⟩, none, 0, false⟩]⟩

def taggedOperations (revision : String) : List Operation :=
  [⟨.checkout, "base", "b1", ⟨""⟩, 0⟩, ⟨.merge "feature" false, "feature", revision, ⟨""⟩, 0⟩]

def taggedTree (revision : String) (count : Nat) : Depot :=
  { taggedDepot revision with
    lookups := count
    trees := ⟨[([.name "out"], ⟨"base", "b1", ⟨[("README", "1")]⟩⟩)]⟩ }

/-- The operations go through, wherever the tag points. -/
theorem changes_taggedOperations {revision : String} (either : revision = "f1" ∨ revision = "o1")
    (count : Nat) :
    ∃ after, Run.changes ⟨"out"⟩ (taggedOperations revision)
        { taggedDepot revision with lookups := count } =
          (.ok (taggedManifest revision).entries, after) ∧
      after.branches = (taggedDepot revision).branches ∧
      ∀ path : Path, path.parts ≠ [.name "out"] → after.tree? path = none := by
  have made : Run.change ⟨"out"⟩ ⟨.checkout, "base", "b1", ⟨""⟩, 0⟩
      { taggedDepot revision with lookups := count } = (.ok false, taggedTree revision count) := by
    rcases either with rfl | rfl
    · rfl
    · rfl
  obtain ⟨theirs, kept, orphan, differ, agrees⟩ : ∃ theirs,
      (taggedTree revision count).stored revision = .ok theirs ∧
      (taggedTree revision count).history.parents revision = [] ∧ revision ≠ "b1" ∧
      Files.conflicts .empty ⟨[("README", "1")]⟩ theirs.files = [] := by
    rcases either with rfl | rfl
    · exact ⟨_, rfl, rfl, by decide, by decide +kernel⟩
    · exact ⟨_, rfl, rfl, by decide, by decide +kernel⟩
  obtain ⟨head, ours, alone⟩ : ∃ head, (taggedTree revision count).stored "b1" = .ok head ∧
      (taggedTree revision count).history.parents "b1" = [] := by
    rcases either with rfl | rfl
    · exact ⟨_, rfl, rfl⟩
    · exact ⟨_, rfl, rfl⟩
  have unknown : revision ∉ (taggedTree revision count).history.ancestors "b1" := by
    rw [History.ancestors_of_parents_eq_nil alone, List.mem_singleton]
    exact differ
  have common : (taggedTree revision count).commonFiles "b1" revision = .ok .empty := by
    rw [Depot.commonFiles, History.mergeBase?_of_parents_eq_nil alone orphan differ]
  obtain ⟨commit, merged⟩ : ∃ commit, Depot.merge ⟨"out"⟩ "feature" revision
      (Run.mergeMessage "feature") (taggedTree revision count) =
        (.ok .merged, (taggedTree revision count).withMerge ⟨"out"⟩ "base" commit) := by
    refine ⟨_, Depot.merge_eq_ok_iff.mpr ⟨?_, ⟨"base", "b1", _⟩, theirs, rfl, kept,
      .inr ⟨unknown, rfl, _, head, common, agrees, ours, rfl⟩⟩⟩
    intro _ impossible
    cases impossible
  have changed : Run.change ⟨"out"⟩ ⟨.merge "feature" false, "feature", revision, ⟨""⟩, 0⟩
      (taggedTree revision count) = (.ok false, _) :=
    Run.change_eq_ok_iff.mpr (.inr (.inl ⟨"feature", .merged, rfl, merged, rfl⟩))
  refine ⟨_, Run.changes_cons_eq_ok_iff.mpr ⟨false, _, _, made,
    Run.changes_cons_eq_ok_iff.mpr ⟨false, _, [], changed, rfl, rfl⟩, rfl⟩, rfl, fun path other => ?_⟩
  have out : (Path.mk "out").parts = [.name "out"] := by decide +kernel
  rw [Depot.tree?, Depot.withMerge, Dict.get?_put, out, if_neg (Ne.symm other)]
  exact if_neg (Ne.symm other)

/-- The recipe is built, wherever the tag points. -/
theorem build_taggedRecipe (pool : Pool) {revision : String}
    (either : revision = "f1" ∨ revision = "o1") :
    ∃ built, buildWith pool Depot.backend .standard ⟨none, none, none, ⟨0, 0⟩⟩ .silent taggedRecipe
        ⟨"out"⟩ (.initial (taggedDepot revision)) =
          (.ok (.built (taggedManifest revision) ⟨"out/recipe.manifest"⟩), built) ∧
      built.store.branches = (taggedDepot revision).branches ∧
      ∀ path : Path, (Path.mk "again").parts <+: path.parts → built.store.tree? path = none := by
  have sound : Settings.standard.flaw? = none := by decide +kernel
  have answer : ∀ source ∈ taggedRecipe.tree.branches, (taggedDepot revision).answer source =
      .ok (if source.location = "base" then "b1" else revision) :=
    List.forall_mem_cons.mpr ⟨rfl, List.forall_mem_singleton.mpr rfl⟩
  have planned : Plan.ofTree (taggedRecipe.tree.map (Resolution.pinnedBy fun source =>
      if source.location = "base" then "b1" else revision)) = .ok (taggedOperations revision) := by
    rcases either with rfl | rfl
    · decide +kernel
    · decide +kernel
  have saves : ((taggedManifest revision).save ⟨"out/recipe.manifest"⟩ .empty).1 = .ok () := by
    rcases either with rfl | rfl
    · decide +kernel
    · decide +kernel
  obtain ⟨built, builds, branches, others⟩ := @build_of_changes taggedRecipe .standard
    ⟨none, none, none, ⟨0, 0⟩⟩ .silent ⟨"out"⟩ (.initial (taggedDepot revision)) pool sound rfl _ _
    rfl rfl ⟨fun _ _ => rfl, fun _ _ => rfl, fun _ _ => rfl⟩ _ answer
    (fun _ impossible => by cases impossible) _ planned _ _ (changes_taggedOperations either) saves
  refine ⟨built, builds, branches, fun path below => others path fun same => ?_⟩
  have again : (Path.mk "again").parts = [.name "again"] := by decide +kernel
  rw [again, same] at below
  exact absurd below (by decide)

theorem reached_taggedDepot (revision : String) :
    Depot.Reached (fun id => ∀ number, id ≠ Depot.mergeId number) (taggedDepot revision) :=
  .setTag (.commit (.commit (.commit .empty "base" (Depot.ne_mergeId (by decide)) ⟨0, 0⟩ _) "feature"
    (Depot.ne_mergeId (by decide)) ⟨5, 0⟩ _) "other" (Depot.ne_mergeId (by decide)) ⟨9, 0⟩ _) _ _ _

/-- A tag of a revision in its branch is built once more. -/
theorem rebuilt_iff_revisions_in_branches_taggedDepot :
    ∃ built copy after,
      buildWith .lagging Depot.backend .standard ⟨none, none, none, ⟨0, 0⟩⟩ .silent taggedRecipe
        ⟨"out"⟩ (.initial (taggedDepot "f1")) =
          (.ok (.built (taggedManifest "f1") ⟨"out/recipe.manifest"⟩), built) ∧
      (taggedManifest "f1").recipe? = some copy ∧
      buildWith .inTurn Depot.backend .standard ⟨none, none, none, ⟨7, 0⟩⟩ .silent copy ⟨"again"⟩
        (.initial built.store) =
          (.ok (.built (taggedManifest "f1") ⟨"again/recipe.manifest"⟩), after) := by
  obtain ⟨built, builds, branches, empty⟩ := build_taggedRecipe .lagging (.inl rfl)
  have saves : ((taggedManifest "f1").save ⟨"again/recipe.manifest"⟩ .empty).1 = .ok () := by
    decide +kernel
  have members : ∀ entry ∈ (taggedManifest "f1").entries,
      entry.revision ∈ built.store.revisions entry.branch := by
    simp only [Depot.revisions, branches]
    decide +kernel
  obtain ⟨copy, described, rebuilt, _⟩ := @rebuilt_iff_revisions_in_branches _ _ _ _ _ _ _ _ built _
    (reached_taggedDepot "f1") (fun _ _ => rfl) builds .inTurn .standard
    ⟨none, none, none, ⟨7, 0⟩⟩ .silent ⟨"again"⟩ (.initial built.store) _ _ rfl empty
    (by decide +kernel) rfl rfl rfl ⟨fun _ _ => rfl, fun _ _ => rfl, fun _ _ => rfl⟩ saves
  obtain ⟨after, again⟩ := rebuilt.mpr members
  exact ⟨built, copy, after, builds, described, again⟩

/-- A tag may point at a revision of another branch.  It is built, and its manifest is not, however
the workers share the look-ups. -/
theorem not_rebuilt_of_tag_elsewhere :
    Depot.Reached (fun id => ∀ number, id ≠ Depot.mergeId number) (taggedDepot "o1") ∧
    ∀ pool poolAgain : Pool, ∃ built copy,
      buildWith pool Depot.backend .standard ⟨none, none, none, ⟨0, 0⟩⟩ .silent taggedRecipe ⟨"out"⟩
        (.initial (taggedDepot "o1")) =
          (.ok (.built (taggedManifest "o1") ⟨"out/recipe.manifest"⟩), built) ∧
      (taggedManifest "o1").recipe? = some copy ∧
      (∀ path : Path, (Path.mk "again").parts <+: path.parts → built.store.tree? path = none) ∧
      ∀ outcome after,
        buildWith poolAgain Depot.backend .standard ⟨none, none, none, ⟨7, 0⟩⟩ .silent copy ⟨"again"⟩
          (.initial built.store) ≠ (.ok outcome, after) := by
  refine ⟨reached_taggedDepot "o1", fun pool poolAgain => ?_⟩
  obtain ⟨built, builds, branches, empty⟩ := build_taggedRecipe pool (.inr rfl)
  refine ⟨built, _, builds, rfl, empty, fun outcome after again => ?_⟩
  have member : "o1" ∈ built.store.revisions "feature" :=
    mem_revisions_of_build again (by decide +kernel)
  rw [Depot.revisions, branches] at member
  exact absurd member (by decide +kernel)

end Session

end SourceRecipe
