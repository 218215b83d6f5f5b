import Mathlib.Data.List.Forall2
import SourceRecipe.Build.Workers
import SourceRecipe.Proofs.Build.Resolution
import SourceRecipe.Proofs.Depot.Requests

/-!
# Look-ups side by side

However the workers of a pool take turns, every look-up is over at the end, each has the answer of
its branch unless it was left out, and where one was left out another one failed.  Workers who take
turns look up one branch after the other.
-/

namespace SourceRecipe.Resolution

variable {σ : Type}

/-! ## Stages -/

/-- How many steps a look-up takes yet. -/
def Stage.left : Stage → Nat
  | waiting _ => 3
  | begun _ => 2
  | answered _ => 1
  | ended _ => 0

def Shift.outcomes (shift : Shift) : List (Outcome String) :=
  shift.stages.map Stage.outcome

theorem Shift.outcomes_put (shift : Shift) (place : Nat) (stage : Stage) :
    (shift.put place stage).outcomes = shift.outcomes.set place stage.outcome := by
  rw [Shift.outcomes, Shift.put, List.map_set]
  rfl

theorem Shift.outcomes_at {shift : Shift} {place : Nat} {stage : Stage}
    (here : shift.stages[place]? = some stage) :
    shift.outcomes[place]? = some stage.outcome := by
  rw [Shift.outcomes, List.getElem?_map, here]
  rfl

/-- A stage with the same outcome changes nothing about what has come of the look-ups. -/
theorem Shift.outcomes_put_of_eq {shift : Shift} {place : Nat} {before after : Stage}
    (here : shift.stages[place]? = some before) (same : after.outcome = before.outcome) :
    (shift.put place after).outcomes = shift.outcomes := by
  obtain ⟨_, outcome⟩ := List.getElem?_eq_some_iff.mp (Shift.outcomes_at here)
  rw [Shift.outcomes_put, same, ← outcome, List.set_getElem_self]

/-- A stage that the look-up of a branch may come to, when a failure has been told of or not. -/
inductive Stage.Fits (Gives : Source → Except BuildError String → Prop) (failed : Bool)
    (source : Source) : Stage → Prop where
  | waiting : Fits Gives failed source (.waiting source)
  | begun : Fits Gives failed source (.begun source)
  | answered {answer : Except BuildError String} (gives : Gives source answer) :
      Fits Gives failed source (.answered answer)
  | ended {answer : Except BuildError String} (gives : Gives source answer) :
      Fits Gives failed source (.ended (some answer))
  | leftOut (told : failed = true) : Fits Gives failed source (.ended none)

/-- Look-ups under way are sound when each is at a stage of its branch, with no more steps to take
than there are turns for it, and a failure that was told of has taken place. -/
structure Shift.IsSound (Gives : Source → Except BuildError String → Prop) (sources : List Source)
    (turns : List Nat) (shift : Shift) : Prop where
  length : shift.stages.length = sources.length
  fits : ∀ place source stage, sources[place]? = some source → shift.stages[place]? = some stage →
    stage.Fits Gives shift.failed source ∧ stage.left ≤ turns.count place
  told : shift.failed = true → ∃ (place : Nat) (error : BuildError),
    shift.stages[place]? = some (Stage.ended (some (.error error)))

section

variable {Gives : Source → Except BuildError String → Prop} {sources : List Source}

theorem Stage.Fits.mono {failed told : Bool} {source : Source} {stage : Stage}
    (fits : stage.Fits Gives failed source) (goesOn : failed = true → told = true) :
    stage.Fits Gives told source := by
  cases fits with
  | waiting => exact .waiting
  | begun => exact .begun
  | answered gives => exact .answered gives
  | ended gives => exact .ended gives
  | leftOut failed => exact .leftOut (goesOn failed)

/-- A look-up takes a step: it comes to a stage of its branch with fewer steps to take, and a
failure is told of only when it has taken place. -/
theorem Shift.IsSound.step {place : Nat} {later : List Nat} {shift : Shift} {before after : Stage}
    {failed : Bool} (sound : shift.IsSound Gives sources (place :: later))
    (here : shift.stages[place]? = some before) (fewer : after.left < before.left)
    (fits : ∀ source, before.Fits Gives shift.failed source → after.Fits Gives failed source)
    (goesOn : shift.failed = true → failed = true)
    (told : failed = true → shift.failed = true ∨ ∃ error, after = .ended (some (.error error))) :
    Shift.IsSound Gives sources later { shift.put place after with failed } := by
  have inside : place < shift.stages.length := (List.getElem?_eq_some_iff.mp here).1
  constructor
  · exact (List.length_set ..).trans sound.length
  · intro other source stage listed there
    by_cases same : place = other
    · subst same
      rw [Shift.put, List.getElem?_set_self inside] at there
      cases there
      obtain ⟨fitted, enough⟩ := sound.fits place source before listed here
      rw [List.count_cons_self] at enough
      exact ⟨fits source fitted, by omega⟩
    · rw [Shift.put, List.getElem?_set_ne same] at there
      obtain ⟨fitted, enough⟩ := sound.fits other source stage listed there
      rw [List.count_cons_of_ne same] at enough
      exact ⟨fitted.mono goesOn, enough⟩
  · intro failing
    rcases told failing with already | ⟨error, rfl⟩
    -- The failure told of before is over, so it is not the look-up that takes the step.
    · obtain ⟨other, error, failure⟩ := sound.told already
      refine ⟨other, error, ?_⟩
      rw [Shift.put, List.getElem?_set_ne]
      · exact failure
      · rintro rfl
        cases here.symm.trans failure
        exact absurd fewer (Nat.not_lt_zero _)
    · exact ⟨place, error, by rw [Shift.put, List.getElem?_set_self inside]⟩

/-- A look-up that is over takes no step. -/
theorem Shift.IsSound.rest {place : Nat} {later : List Nat} {shift : Shift}
    (sound : shift.IsSound Gives sources (place :: later))
    (rests : ∀ stage, shift.stages[place]? = some stage → stage.left = 0) :
    shift.IsSound Gives sources later := by
  refine ⟨sound.length, ?_, sound.told⟩
  intro other source stage listed there
  obtain ⟨fitted, enough⟩ := sound.fits other source stage listed there
  refine ⟨fitted, ?_⟩
  by_cases same : place = other
  · subst same
    rw [rests stage there]
    exact Nat.zero_le _
  · rwa [List.count_cons_of_ne same] at enough

theorem Shift.IsSound.exists_listed {turns : List Nat} {place : Nat} {shift : Shift} {stage : Stage}
    (sound : shift.IsSound Gives sources turns) (here : shift.stages[place]? = some stage) :
    ∃ source, sources[place]? = some source ∧ stage.Fits Gives shift.failed source ∧
      stage.left ≤ turns.count place := by
  have inside : place < sources.length := by
    rw [← sound.length]
    exact (List.getElem?_eq_some_iff.mp here).1
  have listed := List.getElem?_eq_getElem inside
  exact ⟨sources[place], listed, sound.fits place _ stage listed here⟩

theorem Shift.IsSound.exists_source {turns : List Nat} {place : Nat} {shift : Shift} {stage : Stage}
    (sound : shift.IsSound Gives sources turns) (here : shift.stages[place]? = some stage) :
    ∃ source ∈ sources, stage.Fits Gives shift.failed source ∧ stage.left ≤ turns.count place := by
  obtain ⟨source, listed, fits⟩ := sound.exists_listed here
  exact ⟨source, List.mem_of_getElem? listed, fits⟩

theorem isSound_ofSources (turns : Turns sources.length) :
    (Shift.ofSources sources).IsSound Gives sources turns.order := by
  refine ⟨List.length_map _, ?_, fun impossible => by cases impossible⟩
  intro place source stage listed there
  rw [Shift.ofSources, List.getElem?_map, listed] at there
  cases there
  exact ⟨.waiting, turns.whole place (List.getElem?_eq_some_iff.mp listed).1⟩

/-! ## What comes of look-ups side by side -/

def HasFailure {α : Type} (outcomes : List (Outcome α)) : Prop :=
  ∃ error, some (.error error) ∈ outcomes

/-- Each look-up that took place has the answer of its branch, and where one was left out another
one failed. -/
structure AreExcused (Gives : Source → Except BuildError String → Prop) (sources : List Source)
    (outcomes : List (Outcome String)) : Prop where
  gives : List.Forall₂ (fun source outcome => ∀ answer, outcome = some answer → Gives source answer)
    sources outcomes
  excused : none ∈ outcomes → HasFailure outcomes

/-- When all turns are taken, every look-up is over. -/
theorem Shift.IsSound.areExcused {shift : Shift} (sound : shift.IsSound Gives sources []) :
    AreExcused Gives sources shift.outcomes := by
  rw [Shift.outcomes]
  constructor
  · refine List.forall₂_iff_get.mpr ⟨by rw [List.length_map, sound.length], ?_⟩
    intro place listed inside answer answered
    rw [List.get_eq_getElem, List.getElem_map] at answered
    rw [List.length_map] at inside
    obtain ⟨fitted, _⟩ := sound.fits place _ _ (List.getElem?_eq_getElem listed)
      (List.getElem?_eq_getElem inside)
    generalize shift.stages[place] = stage at answered fitted
    cases fitted with
    | waiting => cases answered
    | begun => cases answered
    | answered gives | ended gives =>
        cases answered
        exact gives
    | leftOut => cases answered
  -- Who leaves a look-up out has seen that a failure was told of, and that one has taken place.
  · intro skipped
    obtain ⟨stage, member, outcome⟩ := List.mem_map.mp skipped
    obtain ⟨place, here⟩ := List.mem_iff_getElem?.mp member
    obtain ⟨source, _, fitted, none⟩ := sound.exists_source here
    have failed : shift.failed = true := by
      cases fitted with
      | waiting | begun => exact absurd none (Nat.not_succ_le_zero _)
      | answered | ended => cases outcome
      | leftOut failed => exact failed
    obtain ⟨other, error, failure⟩ := sound.told failed
    exact ⟨error, List.mem_map.mpr ⟨_, List.mem_of_getElem? failure, rfl⟩⟩

/-! ## Turns -/

variable {backend : Backend σ} {token : Token} {Keeps : World σ → Prop}

/-- Look-ups stay sound whoever takes the next step. -/
theorem advance_sound {place : Nat} {later : List Nat} {shift : Shift} {world : World σ}
    (looks : ∀ source ∈ sources, shift.stages[place]? = some (.begun source) →
      Gives source (lookup backend token source world).1 ∧
        Keeps (lookup backend token source world).2)
    (sound : shift.IsSound Gives sources (place :: later)) (kept : Keeps world) :
    (advance backend token place shift world).1.IsSound Gives sources later ∧
      Keeps (advance backend token place shift world).2 := by
  rw [advance]
  match here : shift.stages[place]? with
  | none =>
      refine ⟨sound.rest ?_, kept⟩
      intro stage there
      cases here.symm.trans there
  | some (.ended outcome) =>
      refine ⟨sound.rest ?_, kept⟩
      intro stage there
      cases here.symm.trans there
      rfl
  | some (.waiting source) =>
      refine ⟨sound.step here ?_ ?_ id .inl, kept⟩
      · split
        · exact Nat.zero_lt_succ 2
        · exact Nat.lt_succ_self 2
      · intro listed fitted
        cases fitted
        split
        · rename_i failed
          exact .leftOut failed
        · exact .begun
  | some (.begun source) =>
      obtain ⟨listed, member, fitted, _⟩ := sound.exists_source here
      cases fitted
      obtain ⟨gives, keeps⟩ := looks source member here
      refine ⟨sound.step here (Nat.lt_succ_self 1) ?_ id .inl, keeps⟩
      intro other fitted
      cases fitted
      exact .answered gives
  | some (.answered answer) =>
      refine ⟨sound.step here Nat.zero_lt_one ?_ ?_ ?_, kept⟩
      · intro source fitted
        cases fitted with
        | answered gives => exact .ended gives
      · intro failed
        rw [failed]
        rfl
      · intro told
        cases answer with
        | error error => exact .inr ⟨error, rfl⟩
        | ok revision =>
            refine .inl ?_
            rwa [Except.isOk, Except.toBool, Bool.not_true, Bool.or_false] at told

section

variable (looks : ∀ source ∈ sources, ∀ before, Keeps before →
  Gives source (lookup backend token source before).1 ∧
    Keeps (lookup backend token source before).2)

include looks

theorem advanceAll_sound {turns : List Nat} {shift : Shift} {world : World σ}
    (sound : shift.IsSound Gives sources turns) (kept : Keeps world) :
    (advanceAll backend token turns shift world).1.IsSound Gives sources [] ∧
      Keeps (advanceAll backend token turns shift world).2 := by
  induction turns generalizing shift world with
  | nil => exact ⟨sound, kept⟩
  | cons place later ih =>
      obtain ⟨sound, kept⟩ :=
        advance_sound (fun source member _ => looks source member world kept) sound kept
      exact ih sound kept

theorem lookupBy_excused {world : World σ}
    (kept : Keeps world) (turns : (count : Nat) → Turns count) :
    AreExcused Gives sources (lookupBy backend token turns sources world).1 :=
  (advanceAll_sound looks (isSound_ofSources (turns sources.length)) kept).1.areExcused

end

/-! ## Look-ups that all succeed -/

theorem HasFailure.set {α : Type} {outcomes : List (Outcome α)} {place : Nat}
    (failed : HasFailure outcomes) (waits : outcomes[place]? = some none) (outcome : Outcome α) :
    HasFailure (outcomes.set place outcome) := by
  obtain ⟨error, member⟩ := failed
  obtain ⟨other, there⟩ := List.mem_iff_getElem?.mp member
  have apart : place ≠ other := by
    rintro rfl
    cases waits.symm.trans there
  exact ⟨error, List.mem_of_getElem? ((List.getElem?_set_ne apart).trans there)⟩

theorem not_hasFailure_map_ok {α : Type} (values : List α) :
    ¬ HasFailure (values.map fun value => (some (.ok value) : Outcome α)) := by
  rintro ⟨error, member⟩
  obtain ⟨value, _, impossible⟩ := List.mem_map.mp member
  cases impossible

theorem advance_of_begun {place : Nat} {shift : Shift} {source : Source}
    (here : shift.stages[place]? = some (.begun source)) (world : World σ) :
    advance backend token place shift world =
      (shift.put place (.answered (lookup backend token source world).1),
        (lookup backend token source world).2) := by
  simp only [advance, here]
  rfl

/-- Who takes a step adds at most the outcome of a look-up that had none. -/
theorem advance_outcomes (place : Nat) (shift : Shift) (world : World σ) :
    (advance backend token place shift world).1.outcomes = shift.outcomes ∨
      shift.outcomes[place]? = some none ∧ ∃ outcome,
        (advance backend token place shift world).1.outcomes =
          shift.outcomes.set place outcome := by
  cases here : shift.stages[place]? with
  | none =>
      simp only [advance, here]
      exact .inl rfl
  | some stage =>
      cases stage with
      | waiting source =>
          simp only [advance, here]
          refine .inl (Shift.outcomes_put_of_eq here ?_)
          split
          · rfl
          · rfl
      | begun source =>
          rw [advance_of_begun here]
          exact .inr ⟨Shift.outcomes_at here, _, shift.outcomes_put place _⟩
      | answered answer =>
          simp only [advance, here]
          have same : (Stage.ended (some answer)).outcome = (Stage.answered answer).outcome := rfl
          exact .inl (Shift.outcomes_put_of_eq here same)
      | ended outcome =>
          simp only [advance, here]
          exact .inl rfl

theorem lookup_eq_ok_iff {source : Source} {revision : String} {world after : World σ} :
    lookup backend token source world = (.ok revision, after) ↔
      backend.lookup token source.location source.specifier world = (.ok revision, after) := by
  rw [lookup]
  cases backend.lookup token source.location source.specifier world with
  | mk answer later =>
      cases answer with
      | error fault =>
          constructor
          · intro impossible
            cases impossible
          · intro impossible
            cases impossible
      | ok found =>
          constructor
          · intro same
            cases same
            rfl
          · intro same
            cases same
            rfl

/-- Whether an answer is a revision, and one that its branch means. -/
def Finds (Means : Source → String → Prop) (source : Source) (answer : Except BuildError String) :
    Prop :=
  ∃ revision, answer = .ok revision ∧ Means source revision

section

variable {Means : Source → String → Prop}
  (looks : ∀ source before revision later, Keeps before →
    backend.lookup token source.location source.specifier before = (.ok revision, later) →
    Means source revision ∧ Keeps later)

include looks

/-- As long as no look-up has failed, each has found what it means and kept what a success keeps. -/
theorem advance_fails_or_sound {place : Nat} {later : List Nat} {shift : Shift} {world : World σ}
    (state : HasFailure shift.outcomes ∨
      shift.IsSound (Finds Means) sources (place :: later) ∧ Keeps world) :
    HasFailure (advance backend token place shift world).1.outcomes ∨
      (advance backend token place shift world).1.IsSound (Finds Means) sources later ∧
        Keeps (advance backend token place shift world).2 := by
  rcases state with failed | ⟨sound, kept⟩
  · left
    rcases @advance_outcomes σ backend token place shift world with same | ⟨waits, outcome, same⟩
    · rw [same]
      exact failed
    · rw [same]
      exact failed.set waits outcome
  · by_cases fails : ∃ source error, shift.stages[place]? = some (.begun source) ∧
        (lookup backend token source world).1 = .error error
    · left
      obtain ⟨source, error, here, failure⟩ := fails
      rw [advance_of_begun here, Shift.outcomes_put, failure]
      have inside := (List.getElem?_eq_some_iff.mp (Shift.outcomes_at here)).1
      exact ⟨error, List.mem_of_getElem? (List.getElem?_set_self inside)⟩
    · right
      refine advance_sound (fun source _ here => ?_) sound kept
      cases looked : lookup backend token source world with
      | mk answer after =>
          cases answer with
          | error error => exact absurd ⟨source, error, here, by rw [looked]⟩ fails
          | ok revision =>
              obtain ⟨means, keeps⟩ :=
                looks source world revision after kept (lookup_eq_ok_iff.mp looked)
              exact ⟨⟨revision, rfl, means⟩, keeps⟩

theorem advanceAll_fails_or_sound {turns : List Nat} {shift : Shift} {world : World σ}
    (state : HasFailure shift.outcomes ∨
      shift.IsSound (Finds Means) sources turns ∧ Keeps world) :
    HasFailure (advanceAll backend token turns shift world).1.outcomes ∨
      (advanceAll backend token turns shift world).1.IsSound (Finds Means) sources [] ∧
        Keeps (advanceAll backend token turns shift world).2 := by
  induction turns generalizing shift world with
  | nil => exact state
  | cons place later ih => exact ih (advance_fails_or_sound looks state)

/-- Look-ups side by side that all succeed have found what they mean. -/
theorem lookupBy_sound {turns : (count : Nat) → Turns count} {revisions : List String}
    {world after : World σ}
    (looked : lookupBy backend token turns sources world =
      (revisions.map fun found => some (.ok found), after)) (kept : Keeps world) :
    List.Forall₂ Means sources revisions ∧ Keeps after := by
  have outcomes : Shift.outcomes _ = _ := congrArg Prod.fst looked
  cases congrArg Prod.snd looked
  rcases @advanceAll_fails_or_sound σ sources backend token Keeps Means looks _ _ world
      (.inr ⟨isSound_ofSources (turns sources.length), kept⟩) with failed | ⟨sound, keeps⟩
  · rw [outcomes] at failed
    exact absurd failed (not_hasFailure_map_ok revisions)
  · refine ⟨?_, keeps⟩
    have gives := sound.areExcused.gives
    rw [outcomes, List.forall₂_map_right_iff] at gives
    refine gives.imp fun source revision given => ?_
    obtain ⟨_, same, means⟩ := given _ rfl
    cases same
    exact means

end

end

/-! ## Workers that take turns -/

section

variable {backend : Backend σ} {token : Token} {failed : Bool} {front behind : List Stage}
  {world : World σ}

theorem stage_at_length (front : List Stage) (stage : Stage) (behind : List Stage) :
    (front ++ stage :: behind)[front.length]? = some stage := by
  rw [List.getElem?_append_right (Nat.le_refl _), Nat.sub_self, List.getElem?_cons_zero]

theorem put_at_length (front : List Stage) (stage other : Stage) (behind : List Stage) :
    Shift.put ⟨failed, front ++ stage :: behind⟩ front.length other =
      ⟨failed, front ++ other :: behind⟩ := by
  rw [Shift.put, List.set_append_right _ _ (Nat.le_refl _), Nat.sub_self, List.set_cons_zero]

theorem advance_waiting (source : Source) :
    advance backend token front.length ⟨failed, front ++ .waiting source :: behind⟩ world =
      (⟨failed, front ++ (if failed then .ended none else .begun source) :: behind⟩, world) := by
  simp only [advance, stage_at_length, put_at_length]
  rfl

theorem advance_begun (source : Source) :
    advance backend token front.length ⟨failed, front ++ .begun source :: behind⟩ world =
      (⟨failed, front ++ .answered (lookup backend token source world).1 :: behind⟩,
        (lookup backend token source world).2) := by
  simp only [advance, stage_at_length, put_at_length]
  rfl

theorem advance_answered (answer : Except BuildError String) :
    advance backend token front.length ⟨failed, front ++ .answered answer :: behind⟩ world =
      (⟨failed || !answer.isOk, front ++ .ended (some answer) :: behind⟩, world) := by
  simp only [advance, stage_at_length, put_at_length]
  rfl

theorem advance_ended (outcome : Outcome String) :
    advance backend token front.length ⟨failed, front ++ .ended outcome :: behind⟩ world =
      (⟨failed, front ++ .ended outcome :: behind⟩, world) := by
  simp only [advance, stage_at_length]
  rfl

theorem advanceAll_cons (place : Nat) (later : List Nat) (shift : Shift) :
    advanceAll backend token (place :: later) shift world =
      advanceAll backend token later (advance backend token place shift world).1
        (advance backend token place shift world).2 := rfl

/-- Workers who take turns look up one branch after the other. -/
theorem advanceAll_inTurn (sources : List Source) :
    ∃ told, advanceAll backend token (Turns.thrice (List.range' front.length sources.length))
        ⟨failed, front ++ sources.map .waiting⟩ world =
      (⟨told, front ++ (lookupAll backend token failed sources world).1.map .ended⟩,
        (lookupAll backend token failed sources world).2) := by
  induction sources generalizing front failed world with
  | nil => exact ⟨failed, rfl⟩
  | cons source others ih =>
      have onward (stage : Stage) (told : Bool) (between : World σ) :
          ∃ last, advanceAll backend token
              (Turns.thrice (List.range' (front.length + 1) others.length))
              ⟨told, front ++ stage :: others.map .waiting⟩ between =
            (⟨last, front ++ stage :: (lookupAll backend token told others between).1.map .ended⟩,
              (lookupAll backend token told others between).2) := by
        have rest := @ih told (front ++ [stage]) between
        rw [List.length_append, List.length_singleton] at rest
        simp only [List.append_assoc, List.singleton_append] at rest
        exact rest
      rw [List.length_cons, List.range'_succ, Turns.thrice, List.flatMap_cons, ← Turns.thrice,
        List.map_cons]
      change ∃ told, advanceAll backend token (_ :: _ :: _ :: _) _ world = _
      rw [advanceAll_cons, advance_waiting, advanceAll_cons]
      cases failed with
      | true =>
          rw [if_pos rfl, advance_ended, advanceAll_cons, advance_ended]
          exact onward (.ended none) true world
      | false =>
          rw [if_neg Bool.false_ne_true, advance_begun, advanceAll_cons, advance_answered]
          exact onward (.ended (some (lookup backend token source world).1))
            (!(lookup backend token source world).1.isOk) (lookup backend token source world).2

theorem lookupBy_inTurn (sources : List Source) :
    lookupBy backend token .inTurn sources world = lookupAll backend token false sources world := by
  obtain ⟨told, ended⟩ := @advanceAll_inTurn σ backend token false [] world sources
  have order : (Turns.inTurn sources.length).order =
      Turns.thrice (List.range' 0 sources.length) :=
    congrArg Turns.thrice List.range_eq_range'
  change ((advanceAll backend token (Turns.inTurn sources.length).order (.ofSources sources)
    world).1.stages.map Stage.outcome, _) = _
  rw [order]
  refine (congrArg (fun ending : Shift × World σ =>
    (ending.1.stages.map Stage.outcome, ending.2)) ended).trans (Prod.ext ?_ rfl)
  exact (List.map_map ..).trans (List.map_id _)

end

/-- One worker looks up branches as workers in a pool who take turns. -/
theorem lookupWith_eq_lookupBy (workers : Nat) (pool : Pool) (sources : List Source) :
    ∃ turns, ∀ {σ : Type} (backend : Backend σ) (token : Token),
      lookupWith backend token workers pool sources = lookupBy backend token turns sources := by
  by_cases alone : workers ≤ 1 ∨ sources.length = 1
  · refine ⟨.inTurn, fun backend token => ?_⟩
    rw [lookupWith, if_pos alone]
    funext world
    exact (lookupBy_inTurn sources).symm
  · exact ⟨pool workers, fun backend token => if_neg alone⟩

end SourceRecipe.Resolution
