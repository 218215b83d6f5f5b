import SourceRecipe.Backend.Retry
import SourceRecipe.Proofs.Sequence

/-!
# Attempts

While a token without a deadline has not fired, a pause lets time pass and does nothing else, and an
attempt is followed by another one exactly when it fails because of the network and may be followed.
Once the token has fired, neither a pause nor an attempt begins.
-/

namespace SourceRecipe

variable {σ α : Type} {token : Token} {world : World σ}

theorem World.hasFired_pass (endless : token.deadline = none) (span : Nat) (world : World σ) :
    (world.pass span).hasFired token = world.hasFired token := by
  rw [hasFired, hasFired, Signals.isFired, Signals.isFired, endless]
  rfl

theorem World.pass_pass (first second : Nat) (world : World σ) :
    (world.pass first).pass second = world.pass (first + second) := by
  rw [pass, pass, pass, Signals.pass, Signals.pass, Signals.pass, Nat.add_assoc]

/-- Whether an observer of failed attempts leaves alone what the system keeps and the token. -/
def RetryObserver.LeavesAlone (observer : RetryObserver σ) (token : Token) : Prop :=
  ∀ report world, (observer report world).store = world.store ∧
    (observer report world).hasFired token = world.hasFired token

theorem RetryObserver.noting_leavesAlone (token : Token) :
    (noting : RetryObserver σ).LeavesAlone token :=
  fun _ _ => ⟨rfl, rfl⟩

namespace Call

theorem tryCatch_run (call : Call σ α) (handler : Fault → Call σ α) (world : World σ) :
    tryCatch call handler world =
      match call world with
      | (.ok answer, after) => (.ok answer, after)
      | (.error fault, after) => handler fault after := by
  simp only [tryCatch, tryCatchThe, MonadExceptOf.tryCatch, ExceptT.tryCatch, ExceptT.mk, bind,
    StateT.bind]
  cases call world with
  | mk result after => cases result <;> rfl

theorem check_run (token : Token) (world : World σ) :
    check token world = (if world.hasFired token then .error .cancelled else .ok (), world) := by
  change (if world.hasFired token then throw .cancelled else pure () : Call σ Unit) world = _
  cases world.hasFired token with
  | true => rfl
  | false => rfl

theorem check_of_quiet (quiet : world.hasFired token = false) :
    check token world = (.ok (), world) := by
  rw [check_run, quiet]
  rfl

theorem check_of_fired (fired : world.hasFired token = true) :
    check token world = (.error .cancelled, world) := by
  rw [check_run, fired]
  rfl

theorem pauseSlices_of_quiet (endless : token.deadline = none)
    (quiet : world.hasFired token = false) (slices : Nat) :
    pauseSlices token slices world = (.ok (), world.pass (slices * pauseSlice)) := by
  induction slices generalizing world with
  | zero =>
      rw [Nat.zero_mul]
      rfl
  | succ slices ih =>
      rw [pauseSlices, run_bind, check_of_quiet quiet]
      change pauseSlices token slices (world.pass pauseSlice) = _
      rw [ih ((World.hasFired_pass endless _ _).trans quiet), World.pass_pass, Nat.succ_mul,
        Nat.add_comm]

/-- A pause lets its time pass. -/
theorem pause_of_quiet (endless : token.deadline = none) (quiet : world.hasFired token = false)
    (span : Nat) : pause token span world = (.ok (), world.pass span) := by
  have slices := pauseSlices_of_quiet endless quiet (span / pauseSlice)
  have whole : span / pauseSlice * pauseSlice + span % pauseSlice = span :=
    Nat.div_add_mod' span pauseSlice
  rw [pause, run_bind, slices]
  by_cases rest : span % pauseSlice = 0
  · rw [rest, Nat.add_zero] at whole
    rw [whole]
    dsimp only
    rw [if_neg (not_not_intro rest)]
    rfl
  · dsimp only
    rw [if_pos rest, run_bind,
      check_of_quiet ((World.hasFired_pass endless _ _).trans quiet)]
    change (_, (world.pass _).pass _) = _
    rw [World.pass_pass, whole]

/-- A pause, unless it is none at all, is given up when the token has fired. -/
theorem pause_of_fired (fired : world.hasFired token = true) {span : Nat} (some : span ≠ 0) :
    pause token span world = (.error .cancelled, world) := by
  rw [pause, run_bind]
  cases slices : span / pauseSlice with
  | zero =>
      have rest : span % pauseSlice ≠ 0 := by
        rw [Nat.mod_eq_of_lt (Nat.lt_of_div_eq_zero (by decide) slices)]
        exact some
      change (if span % pauseSlice ≠ 0 then _ else _ : Call σ Unit) world = _
      rw [if_pos rest, run_bind, check_of_fired fired]
  | succ slices => rw [pauseSlices, run_bind, check_of_fired fired]

theorem pauseSlices_files (token : Token) (slices : Nat) (world : World σ) :
    (pauseSlices token slices world).2.files = world.files := by
  induction slices generalizing world with
  | zero => rfl
  | succ slices ih =>
      rw [pauseSlices, run_bind, check_run]
      cases world.hasFired token with
      | true => rfl
      | false => exact ih (world.pass pauseSlice)

/-- A pause changes no files. -/
theorem pause_files (token : Token) (span : Nat) (world : World σ) :
    (pause token span world).2.files = world.files := by
  rw [pause, run_bind]
  have files := pauseSlices_files token (span / pauseSlice) world
  generalize pauseSlices token (span / pauseSlice) world = paused at files
  obtain ⟨answer, after⟩ := paused
  cases answer with
  | error fault => exact files
  | ok done =>
      dsimp only
      split
      · rw [run_bind, check_run]
        cases after.hasFired token with
        | true => exact files
        | false => exact files
      · exact files

variable {policy : RetryPolicy} {observer : RetryObserver σ} {again : Call σ α} {fault : Fault}
  {attempt left : Nat}

/-- A fault that is not one of the network, or that comes with the last attempt, is the answer. -/
theorem afterFault_of_last (last : fault.isRetryable = false ∨ left = 0) :
    afterFault policy observer token attempt left fault again world = (.error fault, world) := by
  have stops : (!fault.isRetryable || decide (left = 0)) = true := by
    rcases last with refused | rfl
    · rw [refused]
      rfl
    · rw [decide_eq_true rfl, Bool.or_true]
  rw [afterFault, if_pos stops]
  rfl

/-- A fault of the network ends the attempts when there is no pause that could follow it. -/
theorem afterFault_of_endless (retryable : fault.isRetryable = true) (more : left ≠ 0)
    (endless : policy.delay? attempt = none) :
    afterFault policy observer token attempt left fault again world =
      (.error .endlessPause, world) := by
  have goesOn : ¬ (!fault.isRetryable || decide (left = 0)) = true := by simp [retryable, more]
  rw [afterFault, if_neg goesOn, endless]
  rfl

/-- A fault of the network is the answer when the pause would outlast the token; otherwise a report, a
pause and another attempt follow. -/
theorem afterFault_of_pause {delay : Nat} (retryable : fault.isRetryable = true) (more : left ≠ 0)
    (span : policy.delay? attempt = some delay) :
    afterFault policy observer token attempt left fault again world =
      if outlasts world.signals token delay then (.error fault, world)
      else
        (pause token delay >>= fun _ => again)
          (observer ⟨attempt + 1, policy.attempts, fault, delay⟩ world) := by
  have goesOn : ¬ (!fault.isRetryable || decide (left = 0)) = true := by simp [retryable, more]
  rw [afterFault, if_neg goesOn, span]
  change (if outlasts world.signals token delay then _ else _ : Call σ α) world = _
  cases outlasts world.signals token delay with
  | true => rfl
  | false => rfl

/-- No pause outlasts a token without a deadline. -/
theorem afterFault_of_span {delay : Nat} (endless : token.deadline = none)
    (retryable : fault.isRetryable = true) (more : left ≠ 0)
    (span : policy.delay? attempt = some delay) :
    afterFault policy observer token attempt left fault again world =
      (pause token delay >>= fun _ => again)
        (observer ⟨attempt + 1, policy.attempts, fault, delay⟩ world) := by
  have inTime : outlasts world.signals token delay = false := by
    rw [outlasts, Signals.remaining?, endless]
    rfl
  rw [afterFault_of_pause retryable more span, inTime, if_neg Bool.false_ne_true]

/-- While the token has not fired, the pause only takes its time. -/
theorem afterFault_of_more {delay : Nat} (endless : token.deadline = none)
    (leaves : observer.LeavesAlone token) (quiet : world.hasFired token = false)
    (retryable : fault.isRetryable = true) (more : left ≠ 0)
    (span : policy.delay? attempt = some delay) :
    afterFault policy observer token attempt left fault again world =
      again ((observer ⟨attempt + 1, policy.attempts, fault, delay⟩ world).pass delay) := by
  have reported := ((leaves ⟨attempt + 1, policy.attempts, fault, delay⟩ world).2).trans quiet
  rw [afterFault_of_span endless retryable more span, run_bind, pause_of_quiet endless reported]

/-- An attempt is made while the token has not fired, and what follows it hangs on its answer. -/
theorem attemptFrom_succ (call : Call σ α) (quiet : world.hasFired token = false) :
    attemptFrom policy observer token call attempt (left + 1) world =
      match call world with
      | (.ok answer, after) => (.ok answer, after)
      | (.error fault, after) =>
          afterFault policy observer token attempt left fault
            (attemptFrom policy observer token call (attempt + 1) left) after := by
  rw [attemptFrom, run_bind, check_of_quiet quiet]
  exact tryCatch_run call _ world

/-- No attempt is made once the token has fired. -/
theorem attemptFrom_of_fired (call : Call σ α) (fired : world.hasFired token = true) :
    attemptFrom policy observer token call attempt (left + 1) world =
      (.error .cancelled, world) := by
  rw [attemptFrom, run_bind, check_of_fired fired]

/-- Where the token has fired, neither a pause nor the attempt behind it begins. -/
theorem pause_attemptFrom_of_fired (call : Call σ α) (fired : world.hasFired token = true)
    (delay : Nat) :
    (pause token delay >>= fun _ =>
        attemptFrom policy observer token call attempt (left + 1)) world =
      (.error .cancelled, world) := by
  rw [run_bind]
  by_cases none : delay = 0
  · subst none
    exact attemptFrom_of_fired call fired
  · rw [pause_of_fired fired none]

/-- One attempt and what follows it, when the token has not fired before it: the answer of the call
is the answer unless another attempt follows, which the token, if it has fired by then, keeps from
being made. -/
theorem attemptFrom_round (call : Call σ α) (endless : token.deadline = none)
    (quiet : world.hasFired token = false) :
    attemptFrom policy observer token call attempt (left + 1) world =
      match call world with
      | (.ok answer, after) => (.ok answer, after)
      | (.error fault, after) =>
          if fault.isRetryable = false ∨ left = 0 then (.error fault, after)
          else
            match policy.delay? attempt with
            | none => (.error .endlessPause, after)
            | some delay =>
                let told := observer ⟨attempt + 1, policy.attempts, fault, delay⟩ after
                if told.hasFired token then (.error .cancelled, told)
                else attemptFrom policy observer token call (attempt + 1) left (told.pass delay) := by
  rw [attemptFrom_succ call quiet]
  obtain ⟨answer, after⟩ := call world
  cases answer with
  | ok found => rfl
  | error fault =>
      dsimp only
      split
      case isTrue last => exact afterFault_of_last last
      case isFalse other =>
        obtain ⟨retryable, more⟩ := not_or.mp other
        rw [Bool.not_eq_false] at retryable
        cases span : policy.delay? attempt with
        | none => exact afterFault_of_endless retryable more span
        | some delay =>
            rw [afterFault_of_span endless retryable more span]
            dsimp only
            split
            case isTrue fired =>
              obtain ⟨others, rfl⟩ := Nat.exists_eq_succ_of_ne_zero more
              exact pause_attemptFrom_of_fired call fired delay
            case isFalse still =>
              rw [Bool.not_eq_true] at still
              rw [run_bind, pause_of_quiet endless still]

end Call

end SourceRecipe
