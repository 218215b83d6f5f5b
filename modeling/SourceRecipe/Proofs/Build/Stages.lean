import SourceRecipe.Proofs.Build.Effects
import SourceRecipe.Proofs.Build.Session

/-!
# The stages of a session

A session prepares a plan, carries it out and writes the manifest.  How its result reads tells how
far it came: as long as it prepares it asks for revisions and numbers only, tells nobody and leaves
the files to the system; while it carries out the plan it leaves them to the system and the
observer; and it writes nothing but the manifest, when the plan is carried out.  This holds however
the workers of a pool share the look-ups.
-/

namespace SourceRecipe

variable {σ : Type}

namespace Session

/-! ## Stages that are followed -/

section

variable (parties : Parties σ) (settings : Settings) (options : BuildOptions)

theorem pinnedWith_follows (pool : Pool) (workers : Nat) (recipe : Recipe) :
    parties.Follows TraceEvent.IsInquiry (FailsAs (BuildError.IsOf .preparing))
      (pinnedWith pool workers parties.backend parties.token recipe)
      (pinnedWith pool workers parties.backend.traced parties.token recipe) := by
  intro world
  obtain ⟨added, same, leads, allowed, fails⟩ :=
    Resolution.resolveWith_follows parties workers pool .empty recipe.tree world
  refine ⟨added, fun trace => ?_, leads, allowed, fails⟩
  rw [pinnedWith, same]
  rfl

def comparison (earlier : Path) (tree : Tree Pinned) (files : FileTree) :
    Except BuildError Bool :=
  if files.has earlier then
    match Recipe.load files earlier with
    | .error error => .error (.recipe error)
    | .ok recipe => .ok (pinsSame recipe tree)
  else .ok false

theorem comparison_failsAs (earlier : Path) (tree : Tree Pinned) (files : FileTree) :
    FailsAs (BuildError.IsOf .preparing) (comparison earlier tree files) := by
  rw [comparison]
  split
  · split
    · intro error same
      cases same
      rfl
    · exact .ok _
  · exact .ok false

theorem unchangedSince_eq (earlier : Path) (tree : Tree Pinned) (world : World σ) :
    unchangedSince earlier tree world = (comparison earlier tree world.files, world) := by
  rw [unchangedSince, run_bind, comparison]
  change (if (!world.files.has earlier) = true then _ else _ : Build σ Bool) world = _
  cases world.files.has earlier with
  | false => rfl
  | true =>
      simp only [Bool.not_true, Bool.false_eq_true, if_false, if_true]
      cases Recipe.load world.files earlier with
      | error error => rfl
      | ok recipe => rfl

/-- A comparison with an earlier manifest is no event, and changes nothing but the notices. -/
theorem stopsEarly_follows (tree : Tree Pinned) :
    parties.Follows TraceEvent.IsInquiry (FailsAs (BuildError.IsOf .preparing))
      (stopsEarly options tree) (stopsEarly options tree) := by
  have compares (earlier : Path) :
      parties.Follows TraceEvent.IsInquiry (FailsAs (BuildError.IsOf .preparing))
        (unchangedSince earlier tree) (unchangedSince earlier tree) := by
    refine .own (fun trace world => ?_) (fun world => ?_) fun world => ?_
    · rw [unchangedSince_eq, unchangedSince_eq]
      rfl
    · rw [unchangedSince_eq]
      exact ⟨rfl, rfl⟩
    · rw [unchangedSince_eq]
      exact comparison_failsAs earlier tree world.files
  cases named : options.earlier with
  | none =>
      simp only [stopsEarly, named]
      exact .ok false
  | some earlier =>
      simp only [stopsEarly, named]
      refine .bind (compares earlier) fun same => ?_
      cases same with
      | true => exact .bind (.note .info _) fun _ => .ok true
      | false => exact .ok false

theorem versionOf_follows (tree : Tree Pinned) (template : Option (List Char)) :
    parties.Follows TraceEvent.IsInquiry (FailsAs (BuildError.IsOf .preparing))
      (versionOf parties.backend parties.token tree template)
      (versionOf parties.backend.traced parties.token tree template) := by
  cases template with
  | none => exact .ok none
  | some text =>
      exact .bind (Numbering.expand_follows parties tree text) fun _ =>
        .bind (.note .info _) fun _ => .ok _

theorem prepare_follows (pool : Pool) (recipe : Recipe) :
    parties.Follows TraceEvent.IsInquiry (FailsAs (BuildError.IsOf .preparing))
      (prepare pool parties.backend settings options recipe parties.token)
      (prepare pool parties.backend.traced settings options recipe parties.token) := by
  refine .bind (pinnedWith_follows parties pool settings.jobs recipe) fun tree => ?_
  refine .bind (stopsEarly_follows parties options tree) fun same => ?_
  cases same with
  | true => exact .ok none
  | false =>
      refine .bind (versionOf_follows parties tree _) fun version => ?_
      cases Plan.ofTree tree with
      | error error => exact .error rfl
      | ok operations => exact .ok _

end

/-! ## How far a session comes -/

def phaseOf : Except BuildError BuildOutcome → BuildPhase
  | .error error => error.phase
  | .ok .unchanged => .preparing
  | .ok (.built _ _) => .writing

/-- What the result of a session says of what it has done.  A session that ends while it prepares
has asked for revisions and numbers and done nothing else to the files and what the system keeps;
one that ends while it carries out the plan has left them to the system and the observer; and only
one that has carried out the plan writes the manifest. -/
structure Accounts (parties : Parties σ) (settings : Settings) (options : BuildOptions)
    (target : Path) (world : World σ) (result : Except BuildError BuildOutcome)
    (trace : List TraceEvent) (after : World σ) : Prop where
  preparing : phaseOf result = .preparing →
    (∀ event ∈ trace, event.IsInquiry) ∧ parties.Leads world trace after
  running : phaseOf result = .running → parties.Leads world trace after
  writing : phaseOf result = .writing → ∃ manifest ran written last,
    .told .finished last ∈ trace ∧ parties.Leads world trace ran ∧
    writeManifest (manifestPath settings options target) manifest ran = (written, after) ∧
    result = written.map fun _ => .built manifest (manifestPath settings options target)

section

variable {parties : Parties σ} {settings : Settings} {options : BuildOptions} {target : Path}

theorem Accounts.of_preparing {world after : World σ} {trace : List TraceEvent}
    {result : Except BuildError BuildOutcome} (phase : phaseOf result = .preparing)
    (inquiries : ∀ event ∈ trace, event.IsInquiry) (leads : parties.Leads world trace after) :
    Accounts parties settings options target world result trace after where
  preparing _ := ⟨inquiries, leads⟩
  running other := by rw [phase] at other; cases other
  writing other := by rw [phase] at other; cases other

theorem Accounts.of_running {world after : World σ} {trace : List TraceEvent}
    {result : Except BuildError BuildOutcome} (phase : phaseOf result = .running)
    (leads : parties.Leads world trace after) :
    Accounts parties settings options target world result trace after where
  preparing other := by rw [phase] at other; cases other
  running _ := leads
  writing other := by rw [phase] at other; cases other

/-- A manifest that is not written is a failure of writing. -/
theorem phaseOf_written (manifest : Manifest) (path : Path) (world : World σ) :
    phaseOf ((writeManifest path manifest world).1.map fun _ => .built manifest path) =
      .writing := by
  change phaseOf (((manifest.save path world.files).1.mapError _).map _) = .writing
  cases (manifest.save path world.files).1 with
  | error error => rfl
  | ok written => rfl

/-- A session that writes the manifest of a finished run is accounted for, whether it is written or
not. -/
theorem Accounts.of_writing {world ran after : World σ} {trace : List TraceEvent}
    {manifest : Manifest} {written : Except BuildError PUnit} {last : Bool}
    (finished : .told .finished last ∈ trace) (leads : parties.Leads world trace ran)
    (wrote : writeManifest (manifestPath settings options target) manifest ran =
      (written, after)) :
    Accounts parties settings options target world
      (written.map fun _ => .built manifest (manifestPath settings options target)) trace after := by
  have phase := phaseOf_written manifest (manifestPath settings options target) ran
  rw [wrote] at phase
  exact
    { preparing := fun other => by rw [phase] at other; cases other
      running := fun other => by rw [phase] at other; cases other
      writing := fun _ => ⟨manifest, ran, written, last, finished, leads, wrote, rfl⟩ }

/-- What a session is accounted for from some point on, it is from its beginning on when nothing
but inquiries were made up to that point. -/
theorem Accounts.before {world middle after : World σ} {first trace : List TraceEvent}
    {result : Except BuildError BuildOutcome}
    (accounts : Accounts parties settings options target middle result trace after)
    (inquiries : ∀ event ∈ first, event.IsInquiry) (leads : parties.Leads world first middle) :
    Accounts parties settings options target world result (first ++ trace) after where
  preparing phase := by
    obtain ⟨later, goesOn⟩ := accounts.preparing phase
    exact ⟨List.forall_mem_append.mpr ⟨inquiries, later⟩, leads.append goesOn⟩
  running phase := leads.append (accounts.running phase)
  writing phase := by
    obtain ⟨manifest, ran, written, last, finished, goesOn, rest⟩ := accounts.writing phase
    exact ⟨manifest, ran, written, last, List.mem_append_right _ finished, leads.append goesOn,
      rest⟩

/-- A run that comes to a manifest has told that it is finished. -/
theorem finished_of_run {version : Option String} {operations : List Operation}
    {manifest : Manifest} {world after : World σ} {trace : List TraceEvent}
    (ran : Run.run parties.backend parties.token target parties.observer version operations world =
      (.ok manifest, after))
    (recorded : Run.run parties.backend.traced parties.token target
      (parties.observer.traced parties.token) version operations (world.traced []) =
      (.ok manifest, after.traced trace)) :
    ∃ last, .told .finished last ∈ trace := by
  obtain ⟨result, later, told, plain, traced, account⟩ :=
    Run.run_account parties.backend parties.token target parties.observer version operations world
  cases ran.symm.trans plain
  have same : trace = told :=
    congrArg (fun ending : _ × World (Traced σ) => ending.2.store.trace) (recorded.symm.trans traced)
  subst same
  cases account with
  | finished before last carries =>
      exact ⟨last, List.mem_cons_of_mem _ (List.mem_append_right _ (List.mem_singleton_self _))⟩

theorem writeManifest_traced (manifest : Manifest) (path : Path) (trace : List TraceEvent)
    (world : World σ) :
    writeManifest path manifest (world.traced trace) =
      ((writeManifest path manifest world).1,
        (writeManifest path manifest world).2.traced trace) := rfl

/-- What a step that writes a manifest comes to, recorded or not. -/
theorem writing_run (manifest : Manifest) (path : Path) {ran after : World σ}
    {written : Except BuildError PUnit} (wrote : writeManifest path manifest ran = (written, after)) :
    (writeManifest path manifest >>= fun _ => pure (.built manifest path) : Build σ BuildOutcome)
        ran = (written.map fun _ => .built manifest path, after) ∧
      ∀ before,
        (writeManifest path manifest >>= fun _ => pure (.built manifest path) :
            Build (Traced σ) BuildOutcome) (ran.traced before) =
          (written.map fun _ => .built manifest path, after.traced before) := by
  refine ⟨?_, fun before => ?_⟩
  · rw [run_bind, wrote]
    cases written with
    | _ => rfl
  · rw [run_bind, writeManifest_traced, wrote]
    cases written with
    | _ => rfl

/-- Once a session is prepared it is accounted for by what it does from then on. -/
theorem complete_accounts (prepared : Option (Option String × List Operation)) (world : World σ) :
    ∃ result trace after,
      complete parties.backend settings options parties.observer target parties.token prepared
          world = (result, after) ∧
      (∀ before, complete parties.backend.traced settings options
          (parties.observer.traced parties.token) target parties.token prepared
          (world.traced before) = (result, after.traced (before ++ trace))) ∧
      Accounts parties settings options target world result trace after := by
  cases prepared with
  | none =>
      refine ⟨.ok .unchanged, [], world, rfl, fun before => ?_,
        .of_preparing rfl (List.forall_mem_nil _) (.nothing world)⟩
      rw [List.append_nil]
      rfl
  | some plan =>
      obtain ⟨version, operations⟩ := plan
      obtain ⟨trace, same, leads, _, fails⟩ :=
        Run.run_follows parties target version operations world
      have recorded := same []
      cases ran : Run.run parties.backend parties.token target parties.observer version operations
          world with
      | mk result between =>
          rw [ran] at same leads fails recorded
          cases result with
          | error error =>
              refine ⟨.error error, trace, between, ?_, fun before => ?_,
                .of_running (fails error rfl) leads⟩
              · rw [complete, run_bind, ran]
              · rw [complete, run_bind, same]
          | ok manifest =>
              obtain ⟨last, finished⟩ := finished_of_run ran recorded
              cases wrote : writeManifest (manifestPath settings options target) manifest between with
              | mk written after =>
                  obtain ⟨plain, traced⟩ := writing_run manifest _ wrote
                  refine ⟨_, trace, after, ?_, fun before => ?_, .of_writing finished leads wrote⟩
                  · rw [complete, run_bind, ran]
                    exact plain
                  · rw [complete, run_bind, same]
                    exact traced (before ++ trace)

/-- A choice of a token is no event, and changes nothing but the signals. -/
theorem chooseToken_eq (settings : Settings) (options : BuildOptions) (world : World σ) :
    ∃ token signals,
      chooseToken settings options world = (.ok token, { world with signals := signals }) ∧
      ∀ trace, chooseToken settings options (world.traced trace) =
        (.ok token, World.traced trace { world with signals := signals }) := by
  cases given : options.token with
  | some token =>
      simp only [chooseToken, given]
      exact ⟨token, world.signals, rfl, fun _ => rfl⟩
  | none =>
      simp only [chooseToken, given]
      exact ⟨_, _, rfl, fun _ => rfl⟩

end

/-- A session that does not come to writing leaves the files alone which the system and the
observer leave alone. -/
theorem Accounts.files_eq {parties : Parties σ} {settings : Settings} {options : BuildOptions}
    {target : Path} {world after : World σ} {result : Except BuildError BuildOutcome}
    {trace : List TraceEvent}
    (accounts : Accounts parties settings options target world result trace after)
    (phase : phaseOf result ≠ .writing)
    (untouched : ∀ event ∈ trace, ∀ before later, parties.Takes before later event →
      later.files = before.files) : after.files = world.files := by
  cases reached : phaseOf result with
  | preparing => exact (accounts.preparing reached).2.files_eq untouched
  | running => exact (accounts.running reached).files_eq untouched
  | writing => exact absurd reached phase

/-- A caller who gave up before the first operation has been told of none. -/
theorem Accounts.ne_cancelled {parties : Parties σ} {settings : Settings} {options : BuildOptions}
    {target : Path} {world after : World σ} {result : Except BuildError BuildOutcome}
    {trace : List TraceEvent}
    (accounts : Accounts parties settings options target world result trace after)
    (busy : ∃ event ∈ trace, ¬ event.IsInquiry) : result ≠ .error .cancelled := by
  rintro rfl
  obtain ⟨event, member, other⟩ := busy
  exact other ((accounts.preparing rfl).1 event member)

/-- A session with a token that has been chosen prepares and goes on from there. -/
theorem prepared_accounts (pool : Pool) (parties : Parties σ) (settings : Settings)
    (options : BuildOptions) (recipe : Recipe) (target : Path) (world : World σ) :
    ∃ result trace after,
      (prepare pool parties.backend settings options recipe parties.token >>=
          complete parties.backend settings options parties.observer target parties.token) world =
        (result, after) ∧
      (∀ before, (prepare pool parties.backend.traced settings options recipe parties.token >>=
            complete parties.backend.traced settings options
              (parties.observer.traced parties.token) target parties.token)
          (world.traced before) = (result, after.traced (before ++ trace))) ∧
      Accounts parties settings options target world result trace after := by
  obtain ⟨inquiries, same, leads, allowed, fails⟩ :=
    prepare_follows parties settings options pool recipe world
  cases prepares : prepare pool parties.backend settings options recipe parties.token world with
  | mk prepared between =>
      rw [prepares] at same leads fails
      cases prepared with
      | error error =>
          refine ⟨.error error, inquiries, between, ?_, fun before => ?_,
            .of_preparing (fails error rfl) allowed leads⟩
          · rw [run_bind, prepares]
          · rw [run_bind, same]
      | ok prepared =>
          obtain ⟨result, trace, after, completes, traced, accounts⟩ :=
            @complete_accounts σ parties settings options target prepared between
          refine ⟨result, inquiries ++ trace, after, ?_, fun before => ?_,
            accounts.before allowed leads⟩
          · rw [run_bind, prepares]
            exact completes
          · rw [run_bind, same, ← List.append_assoc]
            exact traced (before ++ inquiries)

/-- Whatever a system answers and an observer does, the result of a session tells what the session
has done.  When it finds nothing changed, or refuses the settings, a manifest, a branch, a version
or the plan, or the caller gives up before the first operation, it has asked for revisions and
numbers at most, told the observer nothing and written no file.  When the run of the plan breaks
off, it has written no file.  What it writes is the manifest of a run that is finished. -/
theorem buildWith_accounts (pool : Pool) (backend : Backend σ) (settings : Settings)
    (options : BuildOptions) (observer : Observer σ) (recipe : Recipe) (target : Path)
    (world : World σ) :
    ∃ token chosen result after trace,
      chooseToken settings options world = (.ok token, chosen) ∧
      buildWith pool backend settings options observer recipe target world = (result, after) ∧
      buildWith pool backend.traced settings options (observer.traced token) recipe target
        (world.traced []) = (result, after.traced trace) ∧
      Accounts ⟨backend, token, observer⟩ settings options target world result trace after ∧
      ((∃ event ∈ trace, ¬ event.IsInquiry) → result ≠ .error .cancelled) := by
  obtain ⟨token, signals, chose, choseTraced⟩ := chooseToken_eq settings options world
  cases refused : settings.flaw? with
  | some flaw =>
      have accounts : Accounts ⟨backend, token, observer⟩ settings options target world
          (.error (.settings flaw)) [] world :=
        .of_preparing rfl (List.forall_mem_nil _) (.nothing world)
      refine ⟨token, _, .error (.settings flaw), world, [], chose, ?_, ?_, accounts,
        accounts.ne_cancelled⟩
      · rw [buildWith, refused]
        rfl
      · rw [buildWith, refused]
        rfl
  | none =>
      obtain ⟨result, trace, after, plain, traced, accounts⟩ :=
        prepared_accounts pool ⟨backend, token, observer⟩ settings options recipe target
          { world with signals := signals }
      have whole := accounts.before (List.forall_mem_nil _)
        (@Parties.Leads.own _ ⟨backend, token, observer⟩ world { world with signals := signals } _ _
          rfl rfl (.nothing _))
      refine ⟨token, _, result, after, trace, chose, ?_, ?_, whole, whole.ne_cancelled⟩
      · rw [buildWith, refused]
        change (chooseToken settings options >>= _ : Build σ BuildOutcome) world = _
        rw [run_bind, chose]
        exact plain
      · rw [buildWith, refused]
        change (chooseToken settings options >>= _ : Build (Traced σ) BuildOutcome) _ = _
        rw [run_bind, choseTraced]
        exact traced []

end Session

end SourceRecipe
