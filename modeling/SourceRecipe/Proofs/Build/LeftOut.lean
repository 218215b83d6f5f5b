import SourceRecipe.Proofs.Build.Lookups
import SourceRecipe.Proofs.Build.Workers

/-!
# Look-ups that are left out

However the workers take turns, the look-ups that took place are those that were asked of the
system, each at the place of its branch, and where one was left out another one took place and
failed.  So the error of look-ups that fail together is always that of a look-up, and a tree whose
look-ups all succeed is pinned whole: no error of a resolution stands for a revision that was not
looked for.
-/

namespace SourceRecipe.Resolution

variable {σ : Type}

/-! ## Look-ups that took place -/

def meant : Source × Except Fault String → Source × Except BuildError String
  | (source, answer) => (source, answer.mapError (errorOf source))

def tookPlace (sources : List Source) (outcomes : List (Outcome String)) :
    List (Source × Except BuildError String) :=
  (sources.zip outcomes).filterMap fun (source, outcome) => outcome.map fun answer => (source, answer)

theorem tookPlace_waiting (sources : List Source) :
    tookPlace sources (sources.map fun _ => none) = [] := by
  induction sources with
  | nil => rfl
  | cons source others ih => exact ih

/-- One more look-up takes place where there was no outcome. -/
theorem tookPlace_set {sources : List Source} {outcomes : List (Outcome String)} {place : Nat}
    {source : Source} (listed : sources[place]? = some source) (waits : outcomes[place]? = some none)
    (answer : Except BuildError String) :
    (tookPlace sources (outcomes.set place (some answer))).Perm
      ((source, answer) :: tookPlace sources outcomes) := by
  induction place generalizing sources outcomes with
  | zero =>
      cases sources with
      | nil => cases listed
      | cons first others =>
          cases outcomes with
          | nil => cases waits
          | cons outcome outcomes =>
              cases listed
              cases waits
              exact .refl _
  | succ place ih =>
      cases sources with
      | nil => cases listed
      | cons first others =>
          cases outcomes with
          | nil => cases waits
          | cons outcome outcomes =>
              have later := ih listed waits
              cases outcome with
              | none => exact later
              | some given => exact (later.cons _).trans (.swap _ _ _)

/-! ## Look-ups that are recorded -/

/-- Whether recording the look-ups of a step changes nothing about it, and something is told of what
was asked of the system and of what the step gives. -/
def Records {α : Type} (Tells : List (Source × Except Fault String) → α → Prop)
    (step : StateM (World σ) α) (recorded : StateM (World (Traced σ)) α) : Prop :=
  ∀ trace world, ∃ asked, recorded (world.traced trace) =
    ((step world).1, (step world).2.traced (trace ++ asked.map lookedUp)) ∧
      Tells asked (step world).1

namespace Records

variable {α β : Type} {step : StateM (World σ) α} {recorded : StateM (World (Traced σ)) α}
  {Tells : List (Source × Except Fault String) → α → Prop}

/-- A step that asks for nothing. -/
theorem pure {given : α} (tells : Tells [] given) :
    Records Tells (Pure.pure given : StateM (World σ) α) (Pure.pure given) := by
  intro trace world
  refine ⟨[], ?_, tells⟩
  rw [List.map_nil, List.append_nil]
  rfl

theorem bind {Goes : List (Source × Except Fault String) → β → Prop}
    {next : α → StateM (World σ) β} {nextRecorded : α → StateM (World (Traced σ)) β}
    (first : Records Tells step recorded)
    (second : ∀ asked between, Tells asked between →
      Records (fun more given => Goes (asked ++ more) given) (next between) (nextRecorded between)) :
    Records Goes (step >>= next) (recorded >>= nextRecorded) := by
  intro trace world
  obtain ⟨asked, same, tells⟩ := first trace world
  obtain ⟨more, sameAgain, goes⟩ := second asked _ tells (trace ++ asked.map lookedUp) (step world).2
  refine ⟨asked ++ more, ?_, goes⟩
  change nextRecorded (recorded (world.traced trace)).1 (recorded (world.traced trace)).2 = _
  rw [same, sameAgain, List.map_append, List.append_assoc]
  rfl

theorem also {Holds : α → Prop} (records : Records Tells step recorded)
    (holds : ∀ world, Holds (step world).1) :
    Records (fun asked given => Holds given ∧ Tells asked given) step recorded := by
  intro trace world
  obtain ⟨asked, same, tells⟩ := records trace world
  exact ⟨asked, same, holds world, tells⟩

end Records

/-- A look-up asks for its branch. -/
theorem lookup_records (backend : Backend σ) (token : Token) (source : Source) :
    Records (fun asked answer => asked.map meant = [(source, answer)])
      (lookup backend token source) (lookup backend.traced token source) :=
  fun _ world =>
    ⟨[(source, (backend.lookup token source.location source.specifier world).1)], rfl, rfl⟩

/-! ## Turns -/

section

variable {backend : Backend σ} {token : Token} {sources : List Source} {shift : Shift}

/-- Some more look-ups, as asked of the system, have taken place. -/
def Shift.Adds (sources : List Source) (shift : Shift) (asked : List (Source × Except Fault String))
    (next : Shift) : Prop :=
  (tookPlace sources next.outcomes).Perm (asked.map meant ++ tookPlace sources shift.outcomes)

theorem Shift.adds_nothing {next : Shift} (same : next.outcomes = shift.outcomes) :
    shift.Adds sources [] next := by
  rw [Shift.Adds, same]
  exact .refl _

theorem Shift.Adds.append {next last : Shift} {asked more : List (Source × Except Fault String)}
    (first : shift.Adds sources asked next) (second : next.Adds sources more last) :
    shift.Adds sources (asked ++ more) last := by
  rw [Shift.Adds, List.map_append]
  apply (second.trans (first.append_left _)).trans
  rw [← List.append_assoc]
  exact List.perm_append_comm.append_right _

/-- Who takes a step asks for one revision at most, and then that look-up has taken place.  The
look-ups may answer anything. -/
theorem advance_records {place : Nat} {later : List Nat}
    (sound : shift.IsSound (fun _ _ => True) sources (place :: later)) :
    Records (shift.Adds sources) (advance backend token place shift)
      (advance backend.traced token place shift) := by
  cases here : shift.stages[place]? with
  | none =>
      simp only [advance, here]
      exact .pure (Shift.adds_nothing rfl)
  | some stage =>
      cases stage with
      | waiting source =>
          simp only [advance, here]
          refine .pure (Shift.adds_nothing (Shift.outcomes_put_of_eq here ?_))
          split
          · rfl
          · rfl
      | begun source =>
          obtain ⟨listed, there, fitted, _⟩ := sound.exists_listed here
          cases fitted
          simp only [advance, here]
          refine .bind (lookup_records backend token source) fun asked answer same => .pure ?_
          rw [Shift.Adds, List.append_nil, same, Shift.outcomes_put]
          exact tookPlace_set there (Shift.outcomes_at here) answer
      | answered answer =>
          simp only [advance, here]
          have same : (Stage.ended (some answer)).outcome = (Stage.answered answer).outcome := rfl
          exact .pure (Shift.adds_nothing (Shift.outcomes_put_of_eq here same))
      | ended outcome =>
          simp only [advance, here]
          exact .pure (Shift.adds_nothing rfl)

/-- When all turns are taken, every look-up is over, and those that took place are those that were
asked of the system. -/
theorem advanceAll_records {turns : List Nat}
    (sound : shift.IsSound (fun _ _ => True) sources turns) :
    Records (fun asked last => last.IsSound (fun _ _ => True) sources [] ∧
        shift.Adds sources asked last)
      (advanceAll backend token turns shift) (advanceAll backend.traced token turns shift) := by
  induction turns generalizing shift with
  | nil => exact .pure ⟨sound, Shift.adds_nothing rfl⟩
  | cons place later ih =>
      have goesOn (world : World σ) : (advance backend token place shift world).1.IsSound
          (fun _ _ => True) sources later :=
        (@advance_sound σ _ sources backend token (fun _ => True) place later shift world
          (fun _ _ _ => ⟨trivial, trivial⟩) sound trivial).1
      -- What the later turns ask comes on top of what this one asked.
      refine .bind ((advance_records sound).also goesOn) fun asked next ⟨sound, first⟩ => ?_
      intro trace world
      obtain ⟨more, same, ended, second⟩ := ih sound trace world
      exact ⟨more, same, ended, first.append second⟩

end

/-! ## What look-ups give together -/

theorem error?_eq_some_iff {outcome : Outcome String} {error : BuildError} :
    outcome.error? = some error ↔ outcome = some (.error error) := by
  match outcome with
  | none | some (.ok _) =>
      constructor
      · intro impossible
        cases impossible
      · intro impossible
        cases impossible
  | some (.error other) =>
      constructor
      · intro same
        cases same
        rfl
      · intro same
        cases same
        rfl

theorem not_hasFailure_iff {outcomes : List (Outcome String)} :
    ¬ HasFailure outcomes ↔ ∀ outcome ∈ outcomes, outcome.error? = none := by
  constructor
  · intro none outcome member
    rw [Option.eq_none_iff_forall_ne_some]
    intro error failed
    exact none ⟨error, error?_eq_some_iff.mp failed ▸ member⟩
  · rintro silent ⟨error, member⟩
    cases silent _ member

/-- Some look-ups fail together with the first failure, where none is left out without one. -/
theorem combine_eq_error_iff {outcomes : List (Outcome String)} {error : BuildError}
    (excused : none ∈ outcomes → HasFailure outcomes) :
    combine outcomes = .error error ↔
      ∃ front later, outcomes = front ++ some (.error error) :: later ∧ ¬ HasFailure front := by
  have first : outcomes.findSome? Outcome.error? = some error ↔
      ∃ front later, outcomes = front ++ some (.error error) :: later ∧ ¬ HasFailure front := by
    simp only [List.findSome?_eq_some_iff, error?_eq_some_iff, not_hasFailure_iff]
    constructor
    · rintro ⟨front, outcome, later, rfl, rfl, silent⟩
      exact ⟨front, later, rfl, silent⟩
    · rintro ⟨front, later, rfl, silent⟩
      exact ⟨front, _, later, rfl, rfl, silent⟩
  rw [← first, combine]
  cases told : outcomes.findSome? Outcome.error? with
  | some other => rw [Except.error.injEq, Option.some.injEq]
  | none =>
      have whole : none ∉ outcomes := by
        intro skipped
        exact not_hasFailure_iff.mpr (List.findSome?_eq_none_iff.mp told) (excused skipped)
      have answered : ¬ outcomes.any Option.isNone = true := by
        intro skipped
        obtain ⟨outcome, member, none⟩ := List.any_eq_true.mp skipped
        rw [Option.isNone_iff_eq_none.mp none] at member
        exact whole member
      rw [if_neg answered]
      constructor
      · intro impossible
        cases impossible
      · intro impossible
        cases impossible

/-- What becomes of look-ups that were asked of the system, in any order: each is at the place of
its branch, one is left out only where another one failed, and together they give the first failure
among those that took place, or all revisions in the order of the branches. -/
structure AccountsFor (sources : List Source) (asked : List (Source × Except Fault String))
    (outcomes : List (Outcome String)) : Prop where
  places : outcomes.length = sources.length
  took : (tookPlace sources outcomes).Perm (asked.map meant)
  excused : none ∈ outcomes → HasFailure outcomes
  fails : ∀ error, combine outcomes = .error error ↔
    ∃ front later, outcomes = front ++ some (.error error) :: later ∧ ¬ HasFailure front
  succeeds : ∀ revisions, combine outcomes = .ok revisions ↔
    outcomes = revisions.map fun revision => some (.ok revision)

theorem lookupBy_records (backend : Backend σ) (token : Token)
    (turns : (count : Nat) → Turns count) (sources : List Source) :
    Records (AccountsFor sources) (lookupBy backend token turns sources)
      (lookupBy backend.traced token turns sources) := by
  refine .bind (advanceAll_records (isSound_ofSources (turns sources.length)))
    fun asked last ⟨sound, adds⟩ => .pure ?_
  have excused := sound.areExcused.excused
  have nothing : (Shift.ofSources sources).outcomes = sources.map fun _ => none := List.map_map ..
  rw [Shift.Adds, nothing, tookPlace_waiting, List.append_nil] at adds
  rw [List.append_nil]
  exact {
    places := (List.length_map _).trans sound.length
    took := adds
    excused
    fails _ := combine_eq_error_iff excused
    succeeds _ := combine_eq_ok_iff }

/-! ## Trees -/

/-- What becomes of a tree and of what is known when the look-ups for it gave something together:
their error, with nothing remembered, or the tree with a known revision at every branch. -/
inductive Becomes (known : Revisions) (tree : Tree Source) :
    Except BuildError (List String) → Except BuildError (Tree Pinned) → Revisions → Prop where
  | failed (error : BuildError) : Becomes known tree (.error error) (.error error) known
  | pinned {revisions : List String} {answers : Source → String} {later : Revisions}
      (remembers : later = remember known ((pending known tree).zip revisions))
      (knows : ∀ source ∈ tree.branches, later.get? source = some (answers source)) :
      Becomes known tree (.ok revisions) (.ok (tree.map (pinnedBy answers))) later

theorem resolveWith_becomes {backend : Backend σ} {token : Token} {workers : Nat} {pool : Pool}
    {known : Revisions} {tree : Tree Source} {outcomes : List (Outcome String)} {world after : World σ}
    (looked : lookupWith backend token workers pool (pending known tree) world = (outcomes, after))
    (places : outcomes.length = (pending known tree).length) :
    Becomes known tree (combine outcomes)
      (resolveWith backend token workers pool known tree world).1.1
      (resolveWith backend token workers pool known tree world).1.2 := by
  rw [resolveWith]
  cases combined : combine outcomes with
  | error error =>
      rw [resolveBy_eq_of_error looked combined]
      exact .failed error
  | ok revisions =>
      rw [combine_eq_ok_iff.mp combined, List.length_map] at places
      have order : pending known tree = ((pending known tree).zip revisions).map Prod.fst :=
        (List.map_fst_zip (Nat.le_of_eq places.symm)).symm
      have knows (source : Source) (member : source ∈ tree.branches) :=
        isSome_get?_remember order member
      have pins := pinTree_eq_ok_iff.mpr ⟨knows, rfl⟩
      rw [resolveBy_eq_of_ok looked combined, pins]
      refine .pinned rfl fun source member => ?_
      obtain ⟨revision, found⟩ := Option.isSome_iff_exists.mp (knows source member)
      rw [answerOf, found, Option.getD_some]

/-- However a number of workers share look-ups, those that took place are those that were asked of
the system, and one is left out only where another one took place and failed.  So look-ups that fail
together give the first failure among those that took place, and for any tree the answers to the
look-ups that it takes pin the whole tree. -/
theorem failures_are_of_lookups (backend : Backend σ) (token : Token) (workers : Nat) (pool : Pool) :
    (∀ sources, Records (AccountsFor sources) (lookupWith backend token workers pool sources)
      (lookupWith backend.traced token workers pool sources)) ∧
    ∀ known tree world, Becomes known tree
      (combine (lookupWith backend token workers pool (pending known tree) world).1)
      (resolveWith backend token workers pool known tree world).1.1
      (resolveWith backend token workers pool known tree world).1.2 := by
  have records (sources : List Source) :
      Records (AccountsFor sources) (lookupWith backend token workers pool sources)
        (lookupWith backend.traced token workers pool sources) := by
    obtain ⟨turns, same⟩ := lookupWith_eq_lookupBy workers pool sources
    rw [same, same]
    exact lookupBy_records backend token turns sources
  refine ⟨records, fun known tree world => ?_⟩
  obtain ⟨asked, _, account⟩ := records (pending known tree) [] world
  exact resolveWith_becomes rfl account.places

end SourceRecipe.Resolution
