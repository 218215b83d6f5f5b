import SourceRecipe.Proofs.Backend.Attempts

/-!
# The course of attempts

All that becomes known of a call that is attempted again is its answer; how often it was made and
what was told meanwhile is recorded beside it, with what had become of the token each time.  The
attempts before the last one failed because of the network, were told one by one, and the token
fired in none of them.  The last one gives the answer, unless the token keeps the next one from
being made, or the pause before the next one is no span of time.
-/

namespace SourceRecipe

variable {σ α : Type}

/-! ## Records -/

inductive AttemptEvent (α : Type) where
  /-- The call was made, when the token had fired or not, and by its end the token had fired or
  not. -/
  | tried (answer : Except Fault α) (before after : Bool)
  /-- A failed attempt was told, by the end of which the token had fired or not. -/
  | told (report : RetryReport) (after : Bool)

structure Recorded (σ α : Type) where
  store : σ
  record : List (AttemptEvent α)

def World.recorded (record : List (AttemptEvent α)) (world : World σ) : World (Recorded σ α) :=
  world.withStore ⟨world.store, record⟩

def World.unrecorded (world : World (Recorded σ α)) : World σ :=
  world.withStore world.store.store

def Call.recorded (token : Token) (call : Call σ α) : Call (Recorded σ α) α := fun world =>
  let (answer, after) := call world.unrecorded
  (answer, after.recorded
    (world.store.record ++ [.tried answer (world.hasFired token) (after.hasFired token)]))

def RetryObserver.recorded (token : Token) (observer : RetryObserver σ) :
    RetryObserver (Recorded σ α) := fun report world =>
  let after := observer report world.unrecorded
  after.recorded (world.store.record ++ [.told report (after.hasFired token)])

/-- Whether a token that has fired stays so while an observer is told about attempts. -/
def RetryObserver.KeepsFired (observer : RetryObserver σ) (token : Token) : Prop :=
  ∀ report world, world.hasFired token = true → (observer report world).hasFired token = true

theorem Call.recorded_run (token : Token) (call : Call σ α) (record : List (AttemptEvent α))
    (world : World σ) :
    call.recorded token (world.recorded record) =
      ((call world).1, (call world).2.recorded (record ++
        [.tried (call world).1 (world.hasFired token) ((call world).2.hasFired token)])) := rfl

theorem RetryObserver.recorded_run (token : Token) (observer : RetryObserver σ)
    (report : RetryReport) (record : List (AttemptEvent α)) (world : World σ) :
    observer.recorded token report (world.recorded record) =
      (observer report world).recorded
        (record ++ [.told report ((observer report world).hasFired token)]) := rfl

theorem World.hasFired_recorded (token : Token) (record : List (AttemptEvent α))
    (world : World σ) : (world.recorded record).hasFired token = world.hasFired token := rfl

theorem World.pass_recorded (span : Nat) (record : List (AttemptEvent α)) (world : World σ) :
    (world.recorded record).pass span = (world.pass span).recorded record := rfl

theorem RetryObserver.LeavesAlone.keepsFired {observer : RetryObserver σ} {token : Token}
    (leaves : observer.LeavesAlone token) : observer.KeepsFired token :=
  fun report world fired => (leaves report world).2.trans fired

/-! ## Courses -/

namespace Retry

/-- Rounds from attempt number `attempt` on, counted from zero: failures of the network, each told
as it is to be told and followed by another attempt.  The token fires in none of them. -/
inductive Rounds (policy : RetryPolicy) : Nat → List Fault → List (AttemptEvent α) → Prop where
  | none (attempt : Nat) : Rounds policy attempt [] []
  | next {attempt delay : Nat} {fault : Fault} {others : List Fault}
      {record : List (AttemptEvent α)} (retryable : fault.isRetryable = true)
      (span : policy.delay? attempt = some delay)
      (rest : Rounds policy (attempt + 1) others record) :
      Rounds policy attempt (fault :: others)
        (.tried (.error fault) false false ::
          .told ⟨attempt + 1, policy.attempts, fault, delay⟩ false :: record)

/-- Whether an answer is one that no other attempt follows: anything but a failure of the network. -/
def IsFinal : Except Fault α → Prop
  | .ok _ => True
  | .error fault => fault.isRetryable = false

/-- The last round, when as many attempts as `made` were made before. -/
inductive Last (policy : RetryPolicy) (made : Nat) :
    Except Fault α → List (AttemptEvent α) → Prop where
  /-- What the call answers is the answer, whether the token fires in the call or not. -/
  | answered {answer : Except Fault α} (within : made < policy.attempts)
      (last : IsFinal answer ∨ made + 1 = policy.attempts) (fired : Bool) :
      Last policy made answer [.tried answer false fired]
  /-- The token fires in the call, or while it is told that the call failed. -/
  | gaveUp {fault : Fault} {delay : Nat} (retryable : fault.isRetryable = true)
      (more : made + 1 < policy.attempts) (span : policy.delay? made = some delay) (fired : Bool) :
      Last policy made (.error .cancelled)
        [.tried (.error fault) false fired,
          .told ⟨made + 1, policy.attempts, fault, delay⟩ true]
  /-- The pause that should follow is no span of time. -/
  | endless {fault : Fault} (retryable : fault.isRetryable = true)
      (more : made + 1 < policy.attempts) (endless : policy.delay? made = none) (fired : Bool) :
      Last policy made (.error .endlessPause) [.tried (.error fault) false fired]

/-- Attempts from one number on that end with an answer: rounds and a last one. -/
def Goes (policy : RetryPolicy) (attempt : Nat) (answer : Except Fault α)
    (record : List (AttemptEvent α)) : Prop :=
  ∃ faults before last, record = before ++ last ∧ Rounds policy attempt faults before ∧
    Last policy (attempt + faults.length) answer last

/-- The course of a call that is attempted again, by the token having fired before or not. -/
inductive Course (policy : RetryPolicy) :
    Bool → Except Fault α → List (AttemptEvent α) → Prop where
  | unasked (none : policy.attempts = 0) (fired : Bool) :
      Course policy fired (.error (.other "retry exhausted")) []
  | early (some : policy.attempts ≠ 0) : Course policy true (.error .cancelled) []
  | made {answer : Except Fault α} {record : List (AttemptEvent α)}
      (goes : Goes policy 0 answer record) : Course policy false answer record

variable {policy : RetryPolicy} {observer : RetryObserver σ} {token : Token} {world : World σ}
  {attempt left : Nat} {fault : Fault} {answer : Except Fault α} {record : List (AttemptEvent α)}

/-- No attempt of a round begins after the token has fired. -/
theorem Rounds.began {faults : List Fault} (rounds : Rounds policy attempt faults record)
    {before after : Bool} (tried : .tried answer before after ∈ record) : before = false := by
  induction rounds with
  | none => cases tried
  | next retryable span rest ih =>
      simp only [List.mem_cons, AttemptEvent.tried.injEq, reduceCtorEq, false_or] at tried
      exact tried.elim (fun same => same.2.1) ih

theorem Last.began {made : Nat} {found : Except Fault α} (ends : Last policy made found record)
    {before after : Bool} (tried : .tried answer before after ∈ record) : before = false := by
  cases ends with
  | answered | gaveUp | endless =>
      simp only [List.mem_cons, AttemptEvent.tried.injEq, reduceCtorEq, List.not_mem_nil,
        or_false] at tried
      exact tried.2.1

theorem Course.began {fired : Bool} {found : Except Fault α}
    (course : Course policy fired found record) {before after : Bool}
    (tried : .tried answer before after ∈ record) : before = false := by
  cases course with
  | unasked | early => cases tried
  | made goes =>
      obtain ⟨faults, first, last, rfl, rounds, ends⟩ := goes
      exact (List.mem_append.mp tried).elim rounds.began ends.began

theorem Goes.of_last (ends : Last policy attempt answer record) :
    Goes policy attempt answer record :=
  ⟨[], [], record, rfl, .none attempt, ends⟩

theorem Goes.next {delay : Nat} (retryable : fault.isRetryable = true)
    (span : policy.delay? attempt = some delay) (goes : Goes policy (attempt + 1) answer record) :
    Goes policy attempt answer
      (.tried (.error fault) false false ::
        .told ⟨attempt + 1, policy.attempts, fault, delay⟩ false :: record) := by
  obtain ⟨faults, before, last, rfl, rounds, ends⟩ := goes
  refine ⟨fault :: faults, _, last, rfl, .next retryable span rounds, ?_⟩
  rwa [List.length_cons, Nat.add_comm faults.length, ← Nat.add_assoc]

/-! ## Attempts, one after the other -/

/-- Whether the attempts from one number on, of which some are left, take their course as soon as
the token has not fired, and take it in the same way when they are recorded. -/
def TakesCourse (policy : RetryPolicy) (observer : RetryObserver σ) (token : Token)
    (call : Call σ α) (attempt left : Nat) : Prop :=
  ∀ (world : World σ) (record : List (AttemptEvent α)), world.hasFired token = false →
    ∃ answer later more,
      Call.attemptFrom policy observer token call attempt left world = (answer, later) ∧
      Call.attemptFrom policy (observer.recorded token) token (call.recorded token) attempt left
          (world.recorded record) = (answer, later.recorded (record ++ more)) ∧
      Goes policy attempt answer more

/-- One attempt is the last one, or ends a round behind which the others follow. -/
theorem takesCourse_succ (endless : token.deadline = none) (keeps : observer.KeepsFired token)
    (call : Call σ α) (whole : attempt + (left + 1) = policy.attempts)
    (rest : left ≠ 0 → TakesCourse policy observer token call (attempt + 1) left) :
    TakesCourse policy observer token call attempt (left + 1) := by
  intro world record quiet
  have within : attempt < policy.attempts := by omega
  rw [Call.attemptFrom_round call endless quiet, Call.attemptFrom_round _ endless (by exact quiet),
    Call.recorded_run, quiet]
  obtain ⟨answer, after⟩ := call world
  cases answer with
  | ok found =>
      have final : IsFinal (.ok found : Except Fault α) := trivial
      exact ⟨_, _, _, rfl, rfl, .of_last (.answered within (.inl final) _)⟩
  | error fault =>
      dsimp only
      by_cases last : fault.isRetryable = false ∨ left = 0
      · simp only [if_pos last]
        have ends : IsFinal (.error fault : Except Fault α) ∨ attempt + 1 = policy.attempts :=
          last.imp_right fun none => by omega
        exact ⟨_, _, _, rfl, rfl, .of_last (.answered within ends _)⟩
      · simp only [if_neg last]
        obtain ⟨retryable, more⟩ := not_or.mp last
        rw [Bool.not_eq_false] at retryable
        have another : attempt + 1 < policy.attempts := by omega
        cases span : policy.delay? attempt with
        | none => exact ⟨_, _, _, rfl, rfl, .of_last (.endless retryable another span _)⟩
        | some delay =>
            dsimp only
            rw [RetryObserver.recorded_run, World.hasFired_recorded, World.pass_recorded]
            have kept := keeps ⟨attempt + 1, policy.attempts, fault, delay⟩ after
            generalize observer ⟨attempt + 1, policy.attempts, fault, delay⟩ after = told at kept ⊢
            cases fired : told.hasFired token with
            | true =>
                refine ⟨_, _, _, rfl, ?_,
                  .of_last (.gaveUp retryable another span (after.hasFired token))⟩
                rw [List.append_assoc]
                rfl
            | false =>
                have unfired : after.hasFired token = false := by
                  rw [← Bool.not_eq_true]
                  exact fun early => Bool.false_ne_true (fired.symm.trans (kept early))
                have again := (World.hasFired_pass endless delay told).trans fired
                obtain ⟨answer, later, others, raw, recorded, goes⟩ := rest more (told.pass delay)
                  (record ++ [.tried (.error fault) false (after.hasFired token)] ++
                    [.told ⟨attempt + 1, policy.attempts, fault, delay⟩ false]) again
                refine ⟨answer, later, _, raw, ?_, goes.next retryable span⟩
                rw [unfired, List.append_assoc, List.append_assoc] at recorded
                rw [unfired, List.append_assoc]
                exact recorded

theorem takesCourse (endless : token.deadline = none) (keeps : observer.KeepsFired token)
    (call : Call σ α) (whole : attempt + left = policy.attempts) (some : left ≠ 0) :
    TakesCourse policy observer token call attempt left := by
  induction left generalizing attempt with
  | zero => exact absurd rfl some
  | succ left ih =>
      exact takesCourse_succ endless keeps call whole fun more => ih (by omega) more

/-- A call that is attempted again takes its course, and no attempt begins after the token has
fired.  The token has no deadline; what fires it is the call or what is told of an attempt. -/
theorem retrying_course (endless : token.deadline = none) (keeps : observer.KeepsFired token)
    (call : Call σ α) (world : World σ) :
    ∃ answer later record,
      call.retrying policy observer token world = (answer, later) ∧
      (call.recorded token).retrying policy (observer.recorded token) token (world.recorded []) =
        (answer, later.recorded record) ∧
      Course policy (world.hasFired token) answer record ∧
      ∀ found before after, .tried found before after ∈ record → before = false := by
  rw [Call.retrying, Call.retrying]
  cases attempts : policy.attempts with
  | zero =>
      refine ⟨_, world, [], rfl, rfl, .unasked attempts _, fun _ _ _ impossible => ?_⟩
      cases impossible
  | succ left =>
      cases fired : world.hasFired token with
      | true =>
          refine ⟨_, world, [], Call.attemptFrom_of_fired call fired,
            Call.attemptFrom_of_fired _ fired, .early (by omega), fun _ _ _ impossible => ?_⟩
          cases impossible
      | false =>
          have takes := takesCourse endless keeps call (Nat.zero_add policy.attempts) (by omega)
          rw [attempts] at takes
          obtain ⟨answer, later, record, raw, recorded, goes⟩ := takes world [] fired
          exact ⟨answer, later, record, raw, recorded, .made goes,
            fun _ _ _ => (Course.made goes).began⟩

/-! ## Answers known ahead -/

/-- A call whose answers are known ahead, each with whether the token fires in the call. -/
def foretold (token : Token) : Call (List (Except Fault α × Bool)) α := fun world =>
  match world.store with
  | [] => (.error (.other "nothing is foretold"), world)
  | (answer, fires) :: others =>
      let after := { world with store := others }
      (answer, if fires then after.fire token else after)

/-- A failure of the network and then a success; the token fires in the first call or in none. -/
def lostThenFound (fires : Bool) : World (List (Except Fault Nat × Bool)) :=
  .initial [(.error (.network "lost"), fires), (.ok 7, false)]

theorem retrying_lostThenFound (fires : Bool) :
    ∃ later, (foretold ⟨0, none⟩).retrying .standard .noting ⟨0, none⟩ (lostThenFound fires) =
        (if fires then .error .cancelled else .ok 7, later) ∧
      later.store = if fires then [(.ok 7, false)] else [] := by
  have three : RetryPolicy.standard.attempts = 2 + 1 := rfl
  have span : RetryPolicy.standard.delay? 0 = some 2000000000 := by decide +kernel
  have retryable : ¬ ((Fault.network "lost").isRetryable = false ∨ 2 = 0) := by decide
  rw [Call.retrying, three, Call.attemptFrom_round _ rfl rfl]
  simp only [foretold, lostThenFound, World.initial]
  rw [if_neg retryable, span]
  cases fires with
  | true => exact ⟨_, rfl, rfl⟩
  | false =>
      dsimp only
      rw [if_neg (by decide), Call.attemptFrom_round _ rfl rfl]
      exact ⟨_, rfl, rfl⟩

/-- A failure of the network is attempted again, unless the token has fired in the call. -/
theorem retrying_course_lostThenFound :
    (∃ later record,
      (foretold ⟨0, none⟩).retrying .standard .noting ⟨0, none⟩ (lostThenFound false) =
          (.ok 7, later) ∧
        later.store = [] ∧ Course .standard false (.ok 7 : Except Fault Nat) record) ∧
    ∃ later record,
      (foretold ⟨0, none⟩).retrying .standard .noting ⟨0, none⟩ (lostThenFound true) =
          (.error .cancelled, later) ∧
        later.store = [(.ok 7, false)] ∧
        Course .standard false (.error .cancelled : Except Fault Nat) record := by
  have keeps : (RetryObserver.noting : RetryObserver (List (Except Fault Nat × Bool))).KeepsFired
      ⟨0, none⟩ := (RetryObserver.noting_leavesAlone _).keepsFired
  constructor
  · obtain ⟨answer, later, record, made, _, course, _⟩ := @retrying_course _ _ .standard .noting
      ⟨0, none⟩ rfl keeps (foretold ⟨0, none⟩) (lostThenFound false)
    obtain ⟨_, found, left⟩ := retrying_lostThenFound false
    cases made.symm.trans found
    exact ⟨later, record, made, left, course⟩
  · obtain ⟨answer, later, record, made, _, course, _⟩ := @retrying_course _ _ .standard .noting
      ⟨0, none⟩ rfl keeps (foretold ⟨0, none⟩) (lostThenFound true)
    obtain ⟨_, gaveUp, left⟩ := retrying_lostThenFound true
    cases made.symm.trans gaveUp
    exact ⟨later, record, made, left, course⟩

/-- With a negative factor the second pause would end before it begins.  A call that would succeed
at the third of three attempts is not made a third time then, though the token never fires. -/
theorem third_attempt_not_made_of_negative_factor :
    ∃ answer later,
      (foretold ⟨0, none⟩).retrying (.ofBase 3 1000000 (-2.0)) .silent ⟨0, none⟩
          (.initial [(.error (.network "timeout"), false), (.error (.network "timeout"), false),
            (.ok 1, false)]) = (answer, later) ∧
        answer ≠ (.ok 1 : Except Fault Nat) ∧ later.store = [(.ok 1, false)] ∧
        later.hasFired ⟨0, none⟩ = false := by
  have three : (RetryPolicy.ofBase 3 1000000 (-2.0)).attempts = 2 + 1 := rfl
  have span : (RetryPolicy.ofBase 3 1000000 (-2.0)).delay? 0 = some 1000000 := by decide +kernel
  have none : (RetryPolicy.ofBase 3 1000000 (-2.0)).delay? (0 + 1) = none := by decide +kernel
  rw [Call.retrying, three, Call.attemptFrom_round _ rfl rfl]
  simp only [foretold, World.initial]
  rw [if_neg (by decide), span]
  dsimp only
  rw [if_neg (by decide), Call.attemptFrom_round _ rfl rfl]
  simp only [RetryObserver.silent, World.pass]
  rw [if_neg (by decide), none]
  refine ⟨_, _, rfl, fun impossible => ?_, rfl, rfl⟩
  cases impossible

end Retry

end SourceRecipe
