/-!
# Steps in sequence

A sequence of steps that may fail succeeds when each step does, and fails with the first step that
does.  These are the readings of that rule: for plain answers, and for steps that also change a
state.
-/

namespace SourceRecipe

theorem bind_eq_ok_iff {ε α β : Type} {step : Except ε α} {next : α → Except ε β} {answer : β} :
    (step >>= next) = .ok answer ↔ ∃ between, step = .ok between ∧ next between = .ok answer := by
  cases step with
  | error error =>
      constructor
      · intro impossible
        cases impossible
      · rintro ⟨between, impossible, _⟩
        cases impossible
  | ok between =>
      constructor
      · intro finished
        exact ⟨between, rfl, finished⟩
      · rintro ⟨_, same, finished⟩
        cases same
        exact finished

theorem bind_eq_error_iff {ε α β : Type} {step : Except ε α} {next : α → Except ε β} {error : ε} :
    (step >>= next) = .error error ↔
      step = .error error ∨ ∃ between, step = .ok between ∧ next between = .error error := by
  cases step with
  | error other =>
      constructor
      · intro failed
        cases failed
        exact .inl rfl
      · rintro (failed | ⟨_, impossible, _⟩)
        · cases failed
          rfl
        · cases impossible
  | ok between =>
      constructor
      · intro failed
        exact .inr ⟨between, rfl, failed⟩
      · rintro (impossible | ⟨_, same, failed⟩)
        · cases impossible
        · cases same
          exact failed

/-- A sequence goes on from the answer of its first step, or ends with its error. -/
theorem run_bind {ε σ α β : Type} (step : ExceptT ε (StateM σ) α)
    (next : α → ExceptT ε (StateM σ) β) (before : σ) :
    (step >>= next) before =
      match step before with
      | (.ok between, state) => next between state
      | (.error error, state) => (.error error, state) := by
  change (ExceptT.bindCont next (step before).1) (step before).2 = _
  cases step before with
  | mk result state =>
      cases result with
      | error error => rfl
      | ok between => rfl

theorem run_bind_eq_ok_iff {ε σ α β : Type} {step : ExceptT ε (StateM σ) α}
    {next : α → ExceptT ε (StateM σ) β} {before after : σ} {answer : β} :
    (step >>= next) before = (.ok answer, after) ↔
      ∃ between state, step before = (.ok between, state) ∧
        next between state = (.ok answer, after) := by
  rw [run_bind]
  cases step before with
  | mk result state =>
      cases result with
      | error error =>
          constructor
          · intro impossible
            cases impossible
          · rintro ⟨between, _, impossible, _⟩
            cases impossible
      | ok between =>
          constructor
          · intro finished
            exact ⟨between, state, rfl, finished⟩
          · rintro ⟨_, _, same, finished⟩
            cases same
            exact finished

theorem run_bind_eq_error_iff {ε σ α β : Type} {step : ExceptT ε (StateM σ) α}
    {next : α → ExceptT ε (StateM σ) β} {before after : σ} {error : ε} :
    (step >>= next) before = (.error error, after) ↔
      step before = (.error error, after) ∨ ∃ between state, step before = (.ok between, state) ∧
        next between state = (.error error, after) := by
  rw [run_bind]
  cases step before with
  | mk result state =>
      cases result with
      | error other =>
          constructor
          · intro failed
            cases failed
            exact .inl rfl
          · rintro (failed | ⟨_, _, impossible, _⟩)
            · cases failed
              rfl
            · cases impossible
      | ok between =>
          constructor
          · intro failed
            exact .inr ⟨between, state, rfl, failed⟩
          · rintro (impossible | ⟨_, _, same, failed⟩)
            · cases impossible
            · cases same
              exact failed

/-! ## Single steps -/

section

variable {ε σ α : Type} {before after : σ}

theorem run_pure_eq_ok_iff {given answer : α} :
    (pure given : ExceptT ε (StateM σ) α) before = (.ok answer, after) ↔
      given = answer ∧ before = after := by
  constructor
  · intro ran
    cases ran
    exact ⟨rfl, rfl⟩
  · rintro ⟨rfl, rfl⟩
    rfl

theorem run_get_eq_ok_iff {seen : σ} :
    (get : ExceptT ε (StateM σ) σ) before = (.ok seen, after) ↔ before = seen ∧ before = after := by
  constructor
  · intro ran
    cases ran
    exact ⟨rfl, rfl⟩
  · rintro ⟨rfl, rfl⟩
    rfl

theorem run_set_eq_ok_iff {given : σ} {answer : PUnit} :
    (set given : ExceptT ε (StateM σ) PUnit) before = (.ok answer, after) ↔ given = after := by
  constructor
  · intro ran
    cases ran
    rfl
  · rintro rfl
    rfl

theorem run_modify_eq_ok_iff {update : σ → σ} {answer : PUnit} :
    (modify update : ExceptT ε (StateM σ) PUnit) before = (.ok answer, after) ↔
      update before = after := by
  constructor
  · intro ran
    cases ran
    rfl
  · rintro rfl
    rfl

/-- A guard lets a sequence go on when it does not hold. -/
theorem run_guard_eq_ok_iff {β : Type} {guard : Prop} [Decidable guard] {error : ε}
    {never : β → ExceptT ε (StateM σ) α} {others : ExceptT ε (StateM σ) α} {answer : α} :
    (if guard then throw error >>= never else others) before = (.ok answer, after) ↔
      ¬ guard ∧ others before = (.ok answer, after) := by
  by_cases stops : guard
  · rw [if_pos stops]
    constructor
    · intro ran
      cases ran
    · rintro ⟨passes, _⟩
      exact absurd stops passes
  · rw [if_neg stops]
    exact ⟨fun ran => ⟨stops, ran⟩, fun ran => ran.2⟩

/-! ## Steps that fail -/

theorem run_pure_eq_error_iff {given : α} {error : ε} :
    (pure given : ExceptT ε (StateM σ) α) before = (.error error, after) ↔ False := by
  constructor
  · intro ran
    cases ran
  · intro impossible
    cases impossible

theorem run_get_eq_error_iff {error : ε} :
    (get : ExceptT ε (StateM σ) σ) before = (.error error, after) ↔ False := by
  constructor
  · intro ran
    cases ran
  · intro impossible
    cases impossible

theorem run_set_eq_error_iff {given : σ} {error : ε} :
    (set given : ExceptT ε (StateM σ) PUnit) before = (.error error, after) ↔ False := by
  constructor
  · intro ran
    cases ran
  · intro impossible
    cases impossible

theorem run_modify_eq_error_iff {update : σ → σ} {error : ε} :
    (modify update : ExceptT ε (StateM σ) PUnit) before = (.error error, after) ↔ False := by
  constructor
  · intro ran
    cases ran
  · intro impossible
    cases impossible

/-- A guard ends a sequence when it holds. -/
theorem run_guard_eq_error_iff {β : Type} {guard : Prop} [Decidable guard] {given error : ε}
    {never : β → ExceptT ε (StateM σ) α} {others : ExceptT ε (StateM σ) α} :
    (if guard then throw given >>= never else others) before = (.error error, after) ↔
      guard ∧ given = error ∧ before = after ∨ ¬ guard ∧ others before = (.error error, after) := by
  by_cases stops : guard
  · rw [if_pos stops]
    constructor
    · intro ran
      cases ran
      exact .inl ⟨stops, rfl, rfl⟩
    · rintro (⟨_, rfl, rfl⟩ | ⟨passes, _⟩)
      · rfl
      · exact absurd stops passes
  · rw [if_neg stops]
    constructor
    · intro ran
      exact .inr ⟨stops, ran⟩
    · rintro (⟨holds, _⟩ | ⟨_, ran⟩)
      · exact absurd holds stops
      · exact ran

end

end SourceRecipe
