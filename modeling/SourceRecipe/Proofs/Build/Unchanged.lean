import Mathlib.Data.Option.Basic
import SourceRecipe.Proofs.Build.Changes
import SourceRecipe.Proofs.Build.Resolution
import SourceRecipe.Proofs.Build.Session
import SourceRecipe.Proofs.Build.Version
import SourceRecipe.Proofs.Recipe.Comparison
import SourceRecipe.Proofs.Recipe.Tokens

/-!
# Builds that find nothing changed

The manifest of a build on a depot is the text of the recipe that asks for exactly the revisions
used, and it is read back as that recipe.  A later build that is told of the manifest therefore
stops early exactly when every look-up answers what it answered before.
-/

namespace SourceRecipe

open SourceRecipe.Text

/-! ## Pinning on a depot -/

/-- Whether a world came from another one by looking up revisions and giving notices. -/
structure OnlyLooked (before after : World Depot) : Prop where
  store : ∃ count, after.store = { before.store with lookups := count }
  signals : after.signals = before.signals
  files : after.files = before.files

namespace OnlyLooked

variable {start before after : World Depot} {token : Token} {source : Source} {revision : String}

theorem refl (world : World Depot) : OnlyLooked world world :=
  ⟨⟨world.store.lookups, rfl⟩, rfl, rfl⟩

theorem note (level : Level) (text : String) (looked : OnlyLooked start before) :
    OnlyLooked start (before.note level text) :=
  ⟨looked.store, looked.signals, looked.files⟩

/-- A look-up answers what it would have answered at the start. -/
theorem lookup_sound (looked : OnlyLooked start before)
    (found : Depot.backend.lookup token source.location source.specifier before =
      (.ok revision, after)) :
    start.store.answer source = .ok revision ∧ OnlyLooked start after := by
  obtain ⟨_, depot, answered, rfl⟩ :=
    (Depot.call_eq_ok_iff (Depot.lookup _ _)).mp found
  obtain ⟨count, same⟩ := looked.store
  obtain ⟨reaches, revisions, line, known, rfl⟩ := Depot.lookup_eq_ok_iff.mp answered
  have answer : before.store.answer source = .ok revision :=
    Depot.answer_eq_ok_iff.mpr ⟨reaches, revisions, line, known⟩
  rw [same, Depot.answer_lookups] at answer
  refine ⟨answer, ⟨before.store.lookups + 1, ?_⟩, looked.signals, looked.files⟩
  rw [same]

theorem lookup_complete (looked : OnlyLooked start before)
    (quiet : start.hasFired token = false) (answer : start.store.answer source = .ok revision) :
    ∃ after, Depot.backend.lookup token source.location source.specifier before =
      (.ok revision, after) ∧ OnlyLooked start after := by
  obtain ⟨count, same⟩ := looked.store
  rw [← Depot.answer_lookups start.store count, ← same] at answer
  obtain ⟨reaches, revisions, line, known⟩ := Depot.answer_eq_ok_iff.mp answer
  have answered := Depot.lookup_eq_ok_iff.mpr ⟨reaches, revisions, line, known, rfl⟩
  have silent : before.hasFired token = false := by
    rw [World.hasFired, looked.signals]
    exact quiet
  have found := (Depot.call_eq_ok_iff (Depot.lookup _ _)).mpr
    ⟨silent, _, answered, rfl⟩
  exact ⟨_, found, (looked.lookup_sound found).2⟩

end OnlyLooked

namespace Session

variable {pool : Pool} {workers : Nat} {recipe : Recipe} {token : Token} {world after : World Depot}

/-- A pinned tree has what the look-ups answer at the start, whoever looked up what first. -/
theorem pinnedWith_sound {tree : Tree Pinned}
    (pins : pinnedWith pool workers Depot.backend token recipe world = (.ok tree, after)) :
    ∃ answers, tree = recipe.tree.map (Resolution.pinnedBy answers) ∧
      (∀ source ∈ recipe.tree.branches, world.store.answer source = .ok (answers source)) ∧
      OnlyLooked world after := by
  cases resolved : Resolution.resolveWith Depot.backend token workers pool .empty recipe.tree
      world with
  | mk answer later =>
      rcases answer with ⟨result, known⟩
      rw [pinnedWith, resolved] at pins
      cases pins
      exact Resolution.resolveWith_sound (fun source before revision later looked found =>
        looked.lookup_sound found) (fun level text before looked => looked.note level text) resolved
        (OnlyLooked.refl world)

/-- A recipe is pinned where all look-ups have an answer at the start. -/
theorem pinnedWith_complete (pool : Pool) (workers : Nat) (quiet : world.hasFired token = false)
    {answers : Source → String}
    (answer : ∀ source ∈ recipe.tree.branches,
      world.store.answer source = .ok (answers source)) :
    ∃ after, pinnedWith pool workers Depot.backend token recipe world =
      (.ok (recipe.tree.map (Resolution.pinnedBy answers)), after) ∧ OnlyLooked world after := by
  have looks : ∀ source ∈ recipe.tree.branches, ∀ before, OnlyLooked world before → ∃ later,
      Depot.backend.lookup token source.location source.specifier before =
        (.ok (answers source), later) ∧ OnlyLooked world later :=
    fun source member before looked => looked.lookup_complete quiet (answer source member)
  obtain ⟨known, after, resolved, looked⟩ := Resolution.resolveWith_complete looks
    (fun level text before looked => looked.note level text) (OnlyLooked.refl world) workers pool
  refine ⟨after, ?_, looked⟩
  rw [pinnedWith, resolved]

end Session

/-! ## The manifest of a build -/

/-- The recipe that asks for exactly the revisions of a pinned tree may be written where the names
and the revisions are tokens. -/
theorem Recipe.HasTokens.isWritable_exactly {recipe : Recipe} (tokens : recipe.HasTokens)
    {answers : Source → String} {version : Option String}
    (versioned : ∀ text ∈ version, IsToken text.toList)
    (revisions : ∀ source ∈ recipe.tree.branches, IsToken (answers source).toList) :
    Recipe.IsWritable ⟨⟨Header.newestFormat, version⟩,
      (recipe.tree.map (Resolution.pinnedBy answers)).exactly⟩ := by
  have format : Header.IsFormat Header.newestFormat.toList :=
    @Header.IsFormat.fraction ['0'] ['4'] rfl rfl (Nat.le_refl _)
  have entries : ∀ entry ∈
      (recipe.tree.map (Resolution.pinnedBy answers)).exactly.instructions.listing 0,
      entry.HasTokens := by
    rw [Tree.exactly, Tree.map_map]
    simp only [Tree.map, Instructions.listing_map, List.forall_mem_map]
    intro entry listed
    obtain ⟨nickname, place, location⟩ := tokens.entries entry listed
    exact ⟨nickname, place, location⟩
  refine ⟨format, ⟨versioned, tokens.base, tokens.noComment, entries⟩, ?_⟩
  rw [Tree.exactly, Tree.map_map, Tree.branches_map, List.forall_mem_map]
  exact fun source member => revisions source member

namespace Session

section

variable {pool : Pool} {recipe : Recipe} {settings : Settings} {options : BuildOptions}
  {observer : Observer Depot} {target path : Path} {world built : World Depot}
  {manifest : Manifest}

/-- A count of revisions on a depot changes nothing. -/
theorem revnoOf_depot_keeps {token : Token} {branch : Pinned} {before later : World Depot}
    {revno : Nat}
    (counted : Numbering.revnoOf Depot.backend token branch before = (.ok revno, later)) :
    later = before := by
  rw [Numbering.revnoOf, run_bind_eq_ok_iff] at counted
  obtain ⟨answer, between, attempted, rest⟩ := counted
  match answer, rest with
  | .ok (some _), rest =>
      obtain ⟨_, rfl⟩ := run_pure_eq_ok_iff.mp rest
      obtain ⟨_, depot, called, rfl⟩ := (Depot.call_eq_ok_iff (Depot.revno _ _)).mp
        (Call.attempt_eq_ok_iff.mp attempted)
      rw [Depot.revno_eq_ok called]

/-- After a build the recipe that asks for exactly what the look-ups answered is read at the path
of the manifest. -/
theorem load_of_built (names : recipe.HasTokens) (tokens : world.store.HasTokenIds)
    (observes : ∀ event before, before.store.HasTokenIds →
      (observer event before).store.HasTokenIds)
    (builds : buildWith pool Depot.backend settings options observer recipe target world =
      (.ok (.built manifest path), built)) :
    settings.flaw? = none ∧
      ∃ answers version,
        (∀ source ∈ recipe.tree.branches, world.store.answer source = .ok (answers source)) ∧
        ∀ files : FileTree, files.lookup path = built.files.lookup path →
          files.has path = true ∧ Recipe.load files path =
            .ok ⟨⟨Header.newestFormat, version⟩,
              (recipe.tree.map (Resolution.pinnedBy answers)).exactly⟩ := by
  obtain ⟨sound, rfl, token, chosen, tree, resolved, compared, version, named, operations, ran, chose,
    pins, stops, versioned, planned, carried, written⟩ := buildWith_eq_built_iff.mp builds
  obtain ⟨answers, rfl, answer, looked⟩ := pinnedWith_sound pins
  have begins := (chooseToken_keeps chose).1
  have compares : compared.store.HasTokenIds := by
    obtain ⟨count, counted⟩ := looked.store
    rw [stopsEarly_keeps stops, counted, begins]
    exact tokens
  have templates : ∀ text ∈ recipe.header.version.map fun text =>
      Version.substituteTime options.start text.toList, IsToken text :=
    Option.forall_mem_map.mpr fun text given =>
      options.start.isToken_stamp.replace (names.version text given) _
  obtain ⟨versionTokens, namedTokens⟩ := versionOf_eq_ok
    (fun world => world.store.HasTokenIds) IsToken
    (fun _ _ _ _ kept counted => by rw [revnoOf_depot_keeps counted]; exact kept)
    (fun _ _ _ kept => kept)
    (fun _ revno _ isToken => (isToken_numeral revno).replace isToken _) versioned templates compares
  obtain ⟨entries, rfl, records, done, _⟩ := Run.run_sound
    (fun world => world.store.HasTokenIds) observes
    (fun _ _ _ _ kept applied => Run.apply_depot_eq_ok kept applied) carried namedTokens
  have revisions : ∀ source ∈ recipe.tree.branches, IsToken (answers source).toList := by
    have all := Plan.ofTree_revisions (fun revision => IsToken revision.toList) planned done
    rw [Tree.branches_map, List.forall_mem_map] at all
    exact all
  obtain ⟨described, same, stands⟩ := writeManifest_eq_ok written
  rw [Manifest.recipe?_of_records planned records version] at same
  cases same
  refine ⟨sound, answers, version, ?_, fun files untouched => ?_⟩
  · rw [← begins]
    exact answer
  · rw [stands] at untouched
    have writable :=
      names.isWritable_exactly (fun text given => (versionTokens text given).1) revisions
    refine ⟨FileTree.has_of_lookup untouched, ?_⟩
    rw [Recipe.load, FileTree.readText_of_lookup untouched]
    simp only [String.toList_ofList, writable.read_text]
    rfl

/-- A build that is told of the manifest of an earlier build of the same recipe, and finds it
untouched, stops there exactly when every look-up answers what it answered before the earlier build,
whatever has been committed or tagged since and however the workers of either build share the
look-ups.  Then all working trees and files stay as they are. -/
theorem unchanged_iff_same_answers {filename : String} {text : List Char}
    (noReturn : '\r' ∉ text) (read : Recipe.read filename text = .ok recipe)
    (tokens : world.store.HasTokenIds)
    (observes : ∀ event before, before.store.HasTokenIds →
      (observer event before).store.HasTokenIds)
    (builds : buildWith pool Depot.backend settings options observer recipe target world =
      (.ok (.built manifest path), built))
    {poolAgain : Pool} {again : BuildOptions} {other : Observer Depot} {elsewhere : Path}
    {later chosen : World Depot} {token : Token} (named : again.earlier = some path)
    (untouched : later.files.lookup path = built.files.lookup path)
    (chooses : chooseToken settings again later = (.ok token, chosen))
    (quiet : chosen.hasFired token = false) :
    ((∃ after, buildWith poolAgain Depot.backend settings again other recipe elsewhere later =
        (.ok .unchanged, after)) ↔
      ∀ source ∈ recipe.tree.branches, later.store.answer source = world.store.answer source) ∧
    ∀ after, buildWith poolAgain Depot.backend settings again other recipe elsewhere later =
        (.ok .unchanged, after) →
      after.store.trees = later.store.trees ∧ after.files = later.files := by
  have names := Recipe.hasTokens_of_read noReturn read
  obtain ⟨sound, answers, version, answer, loads⟩ := load_of_built names tokens observes builds
  obtain ⟨store, files⟩ := chooseToken_keeps chooses
  have loaded {resolved : World Depot} (looked : OnlyLooked chosen resolved) :
      resolved.files.has path = true ∧ Recipe.load resolved.files path = _ :=
    loads resolved.files (by rw [looked.files, files, untouched])
  -- Both directions come down to this comparison with what the second build finds.
  have compare {found : Source → String} : pinsSame ⟨⟨Header.newestFormat, version⟩,
      (recipe.tree.map (Resolution.pinnedBy answers)).exactly⟩
        (recipe.tree.map (Resolution.pinnedBy found)) = true ↔
      ∀ source ∈ recipe.tree.branches, answers source = found source := by
    rw [pinsSame_iff, Tree.exactly, Tree.exactly, Tree.map_map, Tree.map_map, Tree.map_eq_map_iff]
    simp only [Function.comp, Resolution.pinnedBy, Pinned.exactly, Source.mk.injEq, true_and,
      Specifier.revision.injEq]
  have unchanged {after : World Depot}
      (stopped : buildWith poolAgain Depot.backend settings again other recipe elsewhere later =
        (.ok .unchanged, after)) :
      (∀ source ∈ recipe.tree.branches,
        later.store.answer source = world.store.answer source) ∧
        after.store.trees = later.store.trees ∧ after.files = later.files := by
    obtain ⟨_, _, _, tree, resolved, chose, pins, stops⟩ := buildWith_eq_unchanged_iff.mp stopped
    cases chose.symm.trans chooses
    obtain ⟨found, rfl, answered, looked⟩ := pinnedWith_sound pins
    obtain ⟨stands, loads⟩ := loaded looked
    obtain ⟨same, rfl⟩ := (stopsEarly_eq_ok_iff named stands loads).mp stops
    obtain ⟨count, counted⟩ := looked.store
    refine ⟨fun source member => ?_, ?_, ?_⟩
    · rw [← store, answered source member, answer source member, compare.mp same source member]
    · change resolved.store.trees = later.store.trees
      rw [counted, store]
    · exact looked.files.trans files
  refine ⟨⟨?_, fun same => ?_⟩, fun after stopped => (unchanged stopped).2⟩
  · rintro ⟨after, stopped⟩
    exact (unchanged stopped).1
  · have answered : ∀ source ∈ recipe.tree.branches,
        chosen.store.answer source = .ok (answers source) := by
      intro source member
      rw [store, same source member, answer source member]
    obtain ⟨resolved, pins, looked⟩ := pinnedWith_complete poolAgain settings.jobs quiet answered
    obtain ⟨stands, loads⟩ := loaded looked
    have stops := (stopsEarly_eq_ok_iff named stands loads).mpr ⟨compare.mpr fun _ _ => rfl, rfl⟩
    exact ⟨_, buildWith_eq_unchanged_iff.mpr
      ⟨sound, token, chosen, _, resolved, chooses, pins, stops⟩⟩

end

def sampleDepot : Depot :=
  ((Depot.empty.commit "base" "b1" ⟨0, 0⟩ [("README", "1")]).commit "docs" "d1" ⟨5, 0⟩
    [("index", "2")]).setTag "docs" "v1" "d1"

/-- A recipe with a nest by a tag, a merge of the base into itself and a version. -/
def sampleText : List Char :=
  ("# git-build-recipe format 0.4 deb-version 1.0+{revno}\nbase\nmerge again base\n" ++
    "nest doc docs ./doc tag:v1\n").toList

def sampleRecipe : Recipe :=
  ⟨⟨"0.4", some "1.0+{revno}"⟩, ⟨⟨"base", .tip⟩,
    .step "again" .merge ⟨"base", .tip⟩ .done
      (.step "doc" (.nest "./doc") ⟨"docs", .tag "v1"⟩ .done .done)⟩⟩

def sampleManifest : Manifest :=
  ⟨some "1.0+1", [⟨.checkout, "base", none, "b1", Path.onSystem ⟨""⟩, none, 0, false⟩,
    ⟨.merge, "base", some "again", "b1", Path.onSystem ⟨""⟩, none, 0, true⟩,
    ⟨.nest, "docs", some "doc", "d1", Path.onSystem ⟨"doc"⟩, some "./doc", 0, false⟩]⟩

/-- The world after a build of the recipe by workers one of whom lags. -/
def sampleBuilt : World Depot :=
  (buildWith .lagging Depot.backend .standard ⟨none, none, none, ⟨0, 0⟩⟩ .silent sampleRecipe
    ⟨"out"⟩ (.initial sampleDepot)).2

/-- The world after a further commit to the branch with the tag, and another tag. -/
def sampleLater : World Depot :=
  ⟨(sampleBuilt.store.commit "docs" "d2" ⟨9, 0⟩ []).setTag "docs" "v2" "d2", .initial,
    sampleBuilt.files, []⟩

theorem unchanged_iff_same_answers_sampleLater :
    ∃ after, buildWith .inTurn Depot.backend .standard
        ⟨some ⟨"out/recipe.manifest"⟩, none, none, ⟨1000000000, 0⟩⟩ .silent sampleRecipe
        ⟨"elsewhere"⟩ sampleLater = (.ok .unchanged, after) := by
  have read : Recipe.read "recipe" sampleText = .ok sampleRecipe := by
    decide +kernel
  have ran : (buildWith .lagging Depot.backend .standard ⟨none, none, none, ⟨0, 0⟩⟩ .silent
      sampleRecipe ⟨"out"⟩ (.initial sampleDepot)).1 =
        .ok (.built sampleManifest ⟨"out/recipe.manifest"⟩) := by
    decide +kernel
  have builds : buildWith .lagging Depot.backend .standard ⟨none, none, none, ⟨0, 0⟩⟩ .silent
      sampleRecipe ⟨"out"⟩ (.initial sampleDepot) =
        (.ok (.built sampleManifest ⟨"out/recipe.manifest"⟩), sampleBuilt) :=
    Prod.ext ran rfl
  have chooses : chooseToken .standard ⟨some ⟨"out/recipe.manifest"⟩, none, none, ⟨1000000000, 0⟩⟩
      sampleLater = (.ok (Settings.standard.token sampleLater.signals).1,
        { sampleLater with signals := (Settings.standard.token sampleLater.signals).2 }) := rfl
  have untouched : sampleLater.files.lookup ⟨"out/recipe.manifest"⟩ =
      sampleBuilt.files.lookup ⟨"out/recipe.manifest"⟩ := rfl
  refine (unchanged_iff_same_answers (by decide +kernel) read (by decide +kernel)
    (fun _ _ kept => kept) builds rfl untouched chooses (by decide +kernel)).1.mpr ?_
  decide +kernel

end Session

end SourceRecipe
