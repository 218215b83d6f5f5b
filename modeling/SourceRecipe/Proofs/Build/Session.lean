import SourceRecipe.Build.Session
import SourceRecipe.Proofs.Build.Pools
import SourceRecipe.Proofs.FileTree

/-!
# What a session does

A session that succeeds has chosen a token, pinned the recipe and compared it with an earlier
manifest.  Either it stops there, or it has carried out the plan and written the manifest.
-/

namespace SourceRecipe

open SourceRecipe.Text

variable {σ : Type}

namespace Session

variable {backend : Backend σ} {settings : Settings} {options : BuildOptions}
  {observer : Observer σ} {recipe : Recipe} {target path : Path} {world after : World σ}

/-! ## Parts of a session -/

section

variable {token : Token} {earlier : Path} {written : Recipe} {tree : Tree Pinned}

/-- A choice of a token looks at the clock alone. -/
theorem chooseToken_keeps (chooses : chooseToken settings options world = (.ok token, after)) :
    after.store = world.store ∧ after.files = world.files := by
  rw [chooseToken] at chooses
  cases given : options.token with
  | some other =>
      rw [given] at chooses
      obtain ⟨_, rfl⟩ := run_pure_eq_ok_iff.mp chooses
      exact ⟨rfl, rfl⟩
  | none =>
      rw [given] at chooses
      simp only [run_bind_eq_ok_iff, run_get_eq_ok_iff, run_set_eq_ok_iff,
        run_pure_eq_ok_iff] at chooses
      obtain ⟨_, _, ⟨rfl, rfl⟩, _, _, rfl, _, rfl⟩ := chooses
      exact ⟨rfl, rfl⟩

theorem unchangedSince_of_load (stands : world.files.has earlier = true)
    (loads : Recipe.load world.files earlier = .ok written) :
    unchangedSince earlier tree world = (.ok (pinsSame written tree), world) := by
  rw [unchangedSince, run_bind_eq_ok_iff]
  refine ⟨world, world, rfl, ?_⟩
  simp only [stands, loads, Bool.not_true, Bool.false_eq_true, if_false]
  rfl

/-- A build that is told of a manifest compares the recipe in it. -/
theorem stopsEarly_eq_ok_iff (named : options.earlier = some earlier)
    (stands : world.files.has earlier = true)
    (loads : Recipe.load world.files earlier = .ok written) {same : Bool} :
    stopsEarly options tree world = (.ok same, after) ↔
      pinsSame written tree = same ∧
        after = if same then
            world.note .info s!"Every branch matches {earlier.text}, not building"
          else world := by
  rw [stopsEarly, named]
  simp only [run_bind_eq_ok_iff, unchangedSince_of_load stands loads]
  constructor
  · rintro ⟨_, _, compared, rest⟩
    cases compared
    cases found : pinsSame written tree with
    | true =>
        simp only [found, if_true, run_bind_eq_ok_iff, run_modify_eq_ok_iff,
          run_pure_eq_ok_iff] at rest
        obtain ⟨_, _, rfl, rfl, rfl⟩ := rest
        exact ⟨rfl, rfl⟩
    | false =>
        simp only [found, Bool.false_eq_true, if_false, run_pure_eq_ok_iff] at rest
        obtain ⟨rfl, rfl⟩ := rest
        exact ⟨rfl, rfl⟩
  · rintro ⟨rfl, rfl⟩
    refine ⟨_, _, rfl, ?_⟩
    cases pinsSame written tree with
    | true => rfl
    | false => rfl

theorem unchangedSince_keeps {same : Bool}
    (looked : unchangedSince earlier tree world = (.ok same, after)) : after = world := by
  rw [unchangedSince, run_bind_eq_ok_iff] at looked
  obtain ⟨_, _, seen, rest⟩ := looked
  obtain ⟨rfl, rfl⟩ := run_get_eq_ok_iff.mp seen
  cases stands : world.files.has earlier with
  | false =>
      rw [stands] at rest
      exact (run_pure_eq_ok_iff.mp rest).2.symm
  | true =>
      simp only [stands, Bool.not_true, Bool.false_eq_true, if_false] at rest
      cases loads : Recipe.load world.files earlier with
      | error error =>
          rw [loads] at rest
          cases rest
      | ok recipe =>
          rw [loads] at rest
          exact (run_pure_eq_ok_iff.mp rest).2.symm

/-- A comparison only looks at what is kept. -/
theorem stopsEarly_keeps {same : Bool}
    (stops : stopsEarly options tree world = (.ok same, after)) : after.store = world.store := by
  rw [stopsEarly] at stops
  cases named : options.earlier with
  | none =>
      rw [named] at stops
      obtain ⟨_, rfl⟩ := run_pure_eq_ok_iff.mp stops
      rfl
  | some earlier =>
      simp only [named, run_bind_eq_ok_iff] at stops
      obtain ⟨compared, between, looked, rest⟩ := stops
      cases unchangedSince_keeps looked
      cases compared with
      | true =>
          simp only [if_true, run_bind_eq_ok_iff, run_modify_eq_ok_iff, run_pure_eq_ok_iff] at rest
          obtain ⟨_, _, rfl, _, rfl⟩ := rest
          rfl
      | false =>
          simp only [Bool.false_eq_true, if_false, run_pure_eq_ok_iff] at rest
          obtain ⟨_, rfl⟩ := rest
          rfl

/-- A build that is told of no manifest has nothing to compare. -/
theorem stopsEarly_of_none (unnamed : options.earlier = none) (tree : Tree Pinned) (world : World σ) :
    stopsEarly options tree world = (.ok false, world) := by
  rw [stopsEarly, unnamed]
  rfl

theorem writeManifest_eq_ok_iff {manifest : Manifest} :
    writeManifest path manifest world = (.ok (), after) ↔
      ∃ files, manifest.save path world.files = (.ok (), files) ∧
        after = { world with files := files } := by
  rw [writeManifest, World.onFiles_eq_ok_iff]
  simp only [FileWork.mapError_eq_ok_iff]

/-- The manifest that was written stands at its path as the text of its recipe. -/
theorem writeManifest_eq_ok {manifest : Manifest}
    (written : writeManifest path manifest world = (.ok (), after)) :
    ∃ recipe, manifest.recipe? = some recipe ∧
      after.files.lookup path = .ok (.file (String.ofList recipe.text).toUTF8) := by
  obtain ⟨files, saved, rfl⟩ := writeManifest_eq_ok_iff.mp written
  rw [Manifest.save] at saved
  cases described : manifest.recipe? with
  | none =>
      rw [described] at saved
      cases saved
  | some recipe =>
      simp only [described, Recipe.save, run_bind_eq_ok_iff] at saved
      obtain ⟨_, between, _, texts⟩ := saved
      exact ⟨recipe, rfl, FileWork.writeText_eq_ok texts⟩

end

/-! ## Whole builds -/

section

variable {pool : Pool} {token : Token}

theorem pinnedWith_inTurn (workers : Nat) (backend : Backend σ) (token : Token)
    (recipe : Recipe) (world : World σ) :
    pinnedWith .inTurn workers backend token recipe world =
      ((Resolution.resolve backend token .empty recipe.tree world).1.1,
        (Resolution.resolve backend token .empty recipe.tree world).2) := by
  rw [pinnedWith, Resolution.resolveWith_inTurn]
  rfl

/-- With one worker it does not matter which pool it is from. -/
theorem buildWith_eq_build (pool : Pool) (alone : settings.jobs ≤ 1) :
    buildWith pool backend settings options observer recipe target =
      build backend settings options observer recipe target := by
  have pins (token : Token) : pinnedWith pool settings.jobs backend token recipe =
      pinnedWith .inTurn settings.jobs backend token recipe := by
    funext world
    rw [pinnedWith_inTurn, pinnedWith, Resolution.resolveWith_eq_resolve pool (.inl alone)]
    rfl
  simp only [build, buildWith, prepare, pins]

/-- A session is prepared when the recipe is pinned and compared with an earlier manifest, and, where
that differs, the version is worked out and the plan made. -/
theorem prepare_eq_ok_iff {prepared : Option (Option String × List Operation)} :
    prepare pool backend settings options recipe token world = (.ok prepared, after) ↔
      ∃ tree resolved same compared,
        pinnedWith pool settings.jobs backend token recipe world = (.ok tree, resolved) ∧
        stopsEarly options tree resolved = (.ok same, compared) ∧
        if same then prepared = none ∧ after = compared
        else ∃ version operations,
          versionOf backend token tree (recipe.header.version.map fun text =>
            Version.substituteTime options.start text.toList) compared = (.ok version, after) ∧
          Plan.ofTree tree = .ok operations ∧ prepared = some (version, operations) := by
  rw [prepare]
  simp only [run_bind_eq_ok_iff]
  constructor
  · rintro ⟨tree, resolved, pins, same, compared, stops, rest⟩
    refine ⟨tree, resolved, same, compared, pins, stops, ?_⟩
    cases same with
    | true =>
        obtain ⟨rfl, rfl⟩ := run_pure_eq_ok_iff.mp rest
        exact ⟨rfl, rfl⟩
    | false =>
        obtain ⟨version, named, versioned, rest⟩ := run_bind_eq_ok_iff.mp rest
        cases planned : Plan.ofTree tree with
        | error error =>
            rw [planned] at rest
            cases rest
        | ok operations =>
            rw [planned] at rest
            obtain ⟨rfl, rfl⟩ := run_pure_eq_ok_iff.mp rest
            exact ⟨version, operations, versioned, rfl, rfl⟩
  · rintro ⟨tree, resolved, same, compared, pins, stops, rest⟩
    refine ⟨tree, resolved, pins, same, compared, stops, ?_⟩
    cases same with
    | true =>
        obtain ⟨rfl, rfl⟩ := rest
        rfl
    | false =>
        obtain ⟨version, operations, versioned, planned, rfl⟩ := rest
        refine run_bind_eq_ok_iff.mpr ⟨version, after, versioned, ?_⟩
        rw [planned]
        rfl

/-- What is prepared is completed when the plan is carried out and the manifest of that written. -/
theorem complete_eq_ok_iff {version : Option String} {operations : List Operation}
    {outcome : BuildOutcome} :
    complete backend settings options observer target token (some (version, operations)) world =
        (.ok outcome, after) ↔
      ∃ manifest ran,
        Run.run backend token target observer version operations world = (.ok manifest, ran) ∧
        writeManifest (manifestPath settings options target) manifest ran = (.ok (), after) ∧
        outcome = .built manifest (manifestPath settings options target) := by
  simp only [complete, run_bind_eq_ok_iff, run_pure_eq_ok_iff]
  constructor
  · rintro ⟨manifest, ran, carried, _, _, written, rfl, rfl⟩
    exact ⟨manifest, ran, carried, written, rfl⟩
  · rintro ⟨manifest, ran, carried, written, rfl⟩
    exact ⟨manifest, ran, carried, (), after, written, rfl, rfl⟩

/-- A build that succeeds has sound settings, chooses a token, is prepared and completed. -/
theorem buildWith_eq_ok_iff {outcome : BuildOutcome} :
    buildWith pool backend settings options observer recipe target world = (.ok outcome, after) ↔
      settings.flaw? = none ∧
        ∃ token chosen prepared between,
          chooseToken settings options world = (.ok token, chosen) ∧
          prepare pool backend settings options recipe token chosen = (.ok prepared, between) ∧
          complete backend settings options observer target token prepared between =
            (.ok outcome, after) := by
  rw [buildWith]
  cases flaw : settings.flaw? with
  | some flaw =>
      constructor
      · intro impossible
        cases impossible
      · rintro ⟨impossible, _⟩
        cases impossible
  | none =>
      simp only [run_bind_eq_ok_iff, true_and]
      constructor
      · rintro ⟨token, chosen, chose, prepared, between, prepares, completes⟩
        exact ⟨token, chosen, prepared, between, chose, prepares, completes⟩
      · rintro ⟨token, chosen, prepared, between, chose, prepares, completes⟩
        exact ⟨token, chosen, chose, prepared, between, prepares, completes⟩

theorem pins_of_buildWith {outcome : BuildOutcome}
    (builds : buildWith pool backend settings options observer recipe target world =
      (.ok outcome, after)) :
    ∃ token chosen tree resolved,
      chooseToken settings options world = (.ok token, chosen) ∧
      pinnedWith pool settings.jobs backend token recipe chosen = (.ok tree, resolved) := by
  obtain ⟨_, token, chosen, _, _, chose, prepares, _⟩ := buildWith_eq_ok_iff.mp builds
  obtain ⟨tree, resolved, _, _, pins, _⟩ := prepare_eq_ok_iff.mp prepares
  exact ⟨token, chosen, tree, resolved, chose, pins⟩

/-- A build that is done has gone through all its parts, one after the other. -/
theorem buildWith_eq_built_iff {manifest : Manifest} :
    buildWith pool backend settings options observer recipe target world =
        (.ok (.built manifest path), after) ↔
      settings.flaw? = none ∧ path = manifestPath settings options target ∧
        ∃ token chosen tree resolved compared version named operations ran,
          chooseToken settings options world = (.ok token, chosen) ∧
          pinnedWith pool settings.jobs backend token recipe chosen = (.ok tree, resolved) ∧
          stopsEarly options tree resolved = (.ok false, compared) ∧
          versionOf backend token tree (recipe.header.version.map fun text =>
            Version.substituteTime options.start text.toList) compared = (.ok version, named) ∧
          Plan.ofTree tree = .ok operations ∧
          Run.run backend token target observer version operations named = (.ok manifest, ran) ∧
          writeManifest path manifest ran = (.ok (), after) := by
  rw [buildWith_eq_ok_iff]
  constructor
  · rintro ⟨sound, token, chosen, prepared, between, chose, prepares, completes⟩
    obtain ⟨tree, resolved, same, compared, pins, stops, rest⟩ := prepare_eq_ok_iff.mp prepares
    cases same with
    | true =>
        obtain ⟨rfl, rfl⟩ := rest
        cases completes
    | false =>
        obtain ⟨version, operations, versioned, planned, rfl⟩ := rest
        obtain ⟨_, ran, carried, written, outcome⟩ := complete_eq_ok_iff.mp completes
        cases outcome
        exact ⟨sound, rfl, token, chosen, tree, resolved, compared, version, between, operations,
          ran, chose, pins, stops, versioned, planned, carried, written⟩
  · rintro ⟨sound, rfl, token, chosen, tree, resolved, compared, version, named, operations, ran,
      chose, pins, stops, versioned, planned, carried, written⟩
    refine ⟨sound, token, chosen, some (version, operations), named, chose, ?_, ?_⟩
    · exact prepare_eq_ok_iff.mpr ⟨tree, resolved, false, compared, pins, stops, version,
        operations, versioned, planned, rfl⟩
    · exact complete_eq_ok_iff.mpr ⟨manifest, ran, carried, written, rfl⟩

/-- A build that finds nothing changed ends with the comparison. -/
theorem buildWith_eq_unchanged_iff :
    buildWith pool backend settings options observer recipe target world =
        (.ok .unchanged, after) ↔
      settings.flaw? = none ∧
        ∃ token chosen tree resolved,
          chooseToken settings options world = (.ok token, chosen) ∧
          pinnedWith pool settings.jobs backend token recipe chosen = (.ok tree, resolved) ∧
          stopsEarly options tree resolved = (.ok true, after) := by
  rw [buildWith_eq_ok_iff]
  constructor
  · rintro ⟨sound, token, chosen, prepared, between, chose, prepares, completes⟩
    obtain ⟨tree, resolved, same, compared, pins, stops, rest⟩ := prepare_eq_ok_iff.mp prepares
    cases same with
    | true =>
        obtain ⟨rfl, rfl⟩ := rest
        obtain ⟨_, rfl⟩ := run_pure_eq_ok_iff.mp completes
        exact ⟨sound, token, chosen, tree, resolved, chose, pins, stops⟩
    | false =>
        obtain ⟨version, operations, _, _, rfl⟩ := rest
        obtain ⟨_, _, _, _, impossible⟩ := complete_eq_ok_iff.mp completes
        cases impossible
  · rintro ⟨sound, token, chosen, tree, resolved, chose, pins, stops⟩
    refine ⟨sound, token, chosen, none, after, chose, ?_, rfl⟩
    exact prepare_eq_ok_iff.mpr ⟨tree, resolved, true, after, pins, stops, rfl, rfl⟩

end

end Session

end SourceRecipe
