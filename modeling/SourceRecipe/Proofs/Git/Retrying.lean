import SourceRecipe.Proofs.Git.Checkout

/-!
# Checkouts that are attempted again

A checkout that failed for the network is attempted again in the files that the failed attempt has
left.
-/

namespace SourceRecipe.Git

variable {ε : Type}

/-- Whether the files stay as they are when an observer is told of failed attempts. -/
def LeavesFiles (observer : RetryObserver (Mirrors ε)) : Prop :=
  ∀ report world, (observer report world).files = world.files

inductive Sequel (ε : Type) where
  | ends (answer : Except Fault Unit) (after : World (Mirrors ε))
  | again (world : World (Mirrors ε))

section

variable (policy : RetryPolicy) (observer : RetryObserver (Mirrors ε)) (shell : Shell ε)
  (options : Options) (token : Token) (location revision : String) (target : Path)

def sequel (attempt left : Nat) (made : Attempt ε) : Sequel ε :=
  match made.answer with
  | .ok answer => .ends (.ok answer) made.after
  | .error fault =>
      if fault.isRetryable = false ∨ left = 0 then .ends (.error fault) made.after
      else
        match policy.delay? attempt with
        | none => .ends (.error .endlessPause) made.after
        | some delay =>
            if Call.outlasts made.after.signals token delay then .ends (.error fault) made.after
            else
              let told := observer ⟨attempt + 1, policy.attempts, fault, delay⟩ made.after
              match Call.pause token delay told with
              | (.ok _, next) => .again next
              | (.error fault, after) => .ends (.error fault) after

/-- The attempts from number `attempt` on, at most as many as given, with the answer that they come
to and the world after them. -/
def course (attempt : Nat) : (left : Nat) → World (Mirrors ε) →
    List (Attempt ε) × Except Fault Unit × World (Mirrors ε)
  | 0, world => ([], .error (.other "retry exhausted"), world)
  | left + 1, world =>
      if world.hasFired token then ([], .error .cancelled, world)
      else
        let made := Attempt.make shell options token location revision target world
        match sequel policy observer token attempt left made with
        | .ends answer after => ([made], answer, after)
        | .again next =>
            let (others, rest) := course (attempt + 1) left next
            (made :: others, rest)

/-- One attempt of a call and what follows it. -/
theorem attemptFrom_eq_sequel (call : Call (Mirrors ε) Unit) {world : World (Mirrors ε)}
    (quiet : world.hasFired token = false) (started : List Started) (attempt left : Nat) :
    Call.attemptFrom policy observer token call attempt (left + 1) world =
      match sequel policy observer token attempt left
        ⟨world, started, (call world).1, (call world).2⟩ with
      | .ends answer after => (answer, after)
      | .again next => Call.attemptFrom policy observer token call (attempt + 1) left next := by
  rw [Call.attemptFrom_succ call quiet]
  simp only [sequel]
  obtain ⟨answer, after⟩ := call world
  cases answer with
  | ok answer => rfl
  | error fault =>
      dsimp only
      by_cases last : fault.isRetryable = false ∨ left = 0
      · rw [if_pos last, Call.afterFault_of_last last]
      · obtain ⟨retryable, more⟩ := not_or.mp last
        rw [Bool.not_eq_false] at retryable
        rw [if_neg last]
        cases span : policy.delay? attempt with
        | none => exact Call.afterFault_of_endless retryable more span
        | some delay =>
            rw [Call.afterFault_of_pause retryable more span]
            dsimp only
            by_cases late : Call.outlasts after.signals token delay = true
            · rw [if_pos late, if_pos late]
            · rw [if_neg late, if_neg late, run_bind]
              generalize Call.pause token delay
                (observer ⟨attempt + 1, policy.attempts, fault, delay⟩ after) = paused
              obtain ⟨answer, next⟩ := paused
              cases answer <;> rfl

/-- What the attempts come to is what the checkout that is attempted again comes to. -/
theorem attemptFrom_eq_course (attempt left : Nat) (world : World (Mirrors ε)) :
    Call.attemptFrom policy observer token
        ((backend shell options).checkout token location revision target) attempt left world =
      (course policy observer shell options token location revision target attempt left world).2 := by
  induction left generalizing attempt world with
  | zero => rfl
  | succ left ih =>
      rw [course]
      by_cases fired : world.hasFired token = true
      · rw [if_pos fired, Call.attemptFrom_of_fired _ fired]
      · rw [if_neg fired]
        rw [Bool.not_eq_true] at fired
        rw [attemptFrom_eq_sequel policy observer token _ fired
          (Attempt.make shell options token location revision target world).started]
        change (match sequel policy observer token attempt left
          (Attempt.make shell options token location revision target world) with
          | .ends answer after => (answer, after)
          | .again next => Call.attemptFrom policy observer token
              ((backend shell options).checkout token location revision target) (attempt + 1) left
              next) = _
        dsimp only
        cases sequel policy observer token attempt left
            (Attempt.make shell options token location revision target world) with
        | ends answer after => rfl
        | again next => exact ih _ _

section

variable {policy observer shell options token location revision target} {attempt left : Nat}
  {world : World (Mirrors ε)} {first second : Attempt ε} {later : List (Attempt ε)}

/-- Another attempt follows a failure of the network, when it was told and a pause was made. -/
theorem sequel_eq_again {made : Attempt ε} {next : World (Mirrors ε)}
    (follows : sequel policy observer token attempt left made = .again next) :
    ∃ fault report, made.answer = .error fault ∧ fault.isRetryable = true ∧
      next.files = (observer report made.after).files := by
  rw [sequel] at follows
  split at follows
  · cases follows
  · rename_i fault failed
    split at follows
    · cases follows
    · rename_i more
      split at follows
      · cases follows
      · rename_i delay span
        split at follows
        · cases follows
        · rw [not_or, Bool.not_eq_false] at more
          have files := Call.pause_files token delay
            (observer ⟨attempt + 1, policy.attempts, fault, delay⟩ made.after)
          dsimp only at follows
          split at follows
          · rename_i paused
            rw [paused, Sequel.again.inj follows] at files
            exact ⟨fault, _, failed, more.1, files⟩
          · cases follows

theorem sequel_of_ok {made : Attempt ε} {done : Unit} (ok : made.answer = .ok done) :
    sequel policy observer token attempt left made = .ends (.ok done) made.after := by
  rw [sequel, ok]

theorem sequel_of_final {made : Attempt ε} {fault : Fault} (failed : made.answer = .error fault)
    (final : fault.isRetryable = false) :
    sequel policy observer token attempt left made = .ends (.error fault) made.after := by
  rw [sequel, failed]
  exact if_pos (.inl final)

/-- The first attempt is made in the world that is given; it is the last one, or the others are made
in the world that follows it. -/
theorem course_eq_cons
    (made : (course policy observer shell options token location revision target attempt left
      world).1 = first :: later) :
    first = Attempt.make shell options token location revision target world ∧
      ∃ fewer,
        (∃ answer after, sequel policy observer token attempt fewer first = .ends answer after ∧
          later = [] ∧
          (course policy observer shell options token location revision target attempt left
            world).2 = (answer, after)) ∨
        ∃ next, sequel policy observer token attempt fewer first = .again next ∧
          (course policy observer shell options token location revision target (attempt + 1) fewer
            next).1 = later ∧
          (course policy observer shell options token location revision target attempt left
            world).2 =
            (course policy observer shell options token location revision target (attempt + 1) fewer
              next).2 := by
  cases left with
  | zero => cases made
  | succ left =>
      rw [course] at made ⊢
      split at made
      · cases made
      · rename_i quiet
        rw [if_neg quiet]
        dsimp only at made ⊢
        cases follows : sequel policy observer token attempt left
            (Attempt.make shell options token location revision target world) with
        | ends answer after =>
            rw [follows] at made
            obtain ⟨rfl, rfl⟩ := List.cons.inj made
            exact ⟨rfl, left, .inl ⟨_, _, follows, rfl, rfl⟩⟩
        | again next =>
            rw [follows] at made
            obtain ⟨rfl, rfl⟩ := List.cons.inj made
            exact ⟨rfl, left, .inr ⟨next, follows, rfl, rfl⟩⟩

/-- An attempt in a filled target is the last one. -/
theorem course_of_filled (filled : IsFilled world.files target)
    (made : (course policy observer shell options token location revision target attempt left
      world).1 = first :: later) :
    first.started = [] ∧
      first.answer = .error (.other s!"{target.text} exists and is not empty") ∧ later = [] ∧
      (course policy observer shell options token location revision target attempt left
        world).2.1 = first.answer := by
  obtain ⟨head, fewer, ends | ⟨next, follows, _⟩⟩ := course_eq_cons made
  · obtain ⟨answer, after, follows, none, result⟩ := ends
    rw [Attempt.make_of_filled shell options token location revision filled] at head
    subst head
    rw [sequel_of_final rfl rfl] at follows
    obtain ⟨rfl, rfl⟩ := Sequel.ends.inj follows
    exact ⟨rfl, rfl, none, by rw [result]⟩
  · rw [Attempt.make_of_filled shell options token location revision filled] at head
    subst head
    rw [sequel_of_final rfl rfl] at follows
    cases follows

/-- The files that an attempt finds when another one was made before it in a vacant target. -/
theorem files_of_again {made : Attempt ε} {next : World (Mirrors ε)}
    (leaves : LeavesFiles observer)
    (head : made = Attempt.make shell options token location revision target world)
    (vacant : IsVacant world.files target) (mannered : made.IsMannered options location target)
    (follows : sequel policy observer token attempt left made = .again next) :
    (∃ fault, made.answer = .error fault ∧ fault.isRetryable = true) ∧
      (made.HasCloned target ∧ IsFilled next.files target ∨
        ¬ made.HasCloned target ∧ IsVacant next.files target) := by
  obtain ⟨fault, report, failed, retryable, files⟩ := sequel_eq_again follows
  have ends := Attempt.make_checksOut shell options token location revision target world
  rw [← head] at ends
  have before : made.before = world := by rw [head, Attempt.make]
  have found : IsVacant made.before.files target := by rwa [before]
  rw [← before] at ends
  rw [files, leaves]
  exact ⟨⟨fault, failed, retryable⟩, Attempt.ends_of_retryable ends mannered found failed retryable⟩

/-- What an attempt comes to after one that failed for the network, when `answer` is what all
attempts come to. -/
inductive Follows (target : Path) (one next : Attempt ε) (later : List (Attempt ε))
    (answer : Except Fault Unit) : Prop
  /-- The mirror was cloned into the target: the attempt is refused, and it is the last one. -/
  | stuck (cloned : one.HasCloned target) (idle : next.started = [])
      (refused : next.answer = .error (.other s!"{target.text} exists and is not empty"))
      (last : later = []) (answered : answer = next.answer)
  /-- It was not: the tree is made when all commands do their work, unless the token fires or there
  can be no directory for the mirror. -/
  | resumed (uncloned : ¬ one.HasCloned target) (vacant : IsVacant next.before.files target)
      (makes : (∀ other ∈ next.started, other.succeeded = true) →
        next.answer = .ok () ∨ next.answer = .error .cancelled ∨
          ∃ error, next.answer = .error (fileFault error))
      (answered : next.answer = .ok () → answer = .ok ())

theorem follows_of_course (leaves : LeavesFiles observer) (vacant : IsVacant world.files target)
    {earlier : List (Attempt ε)} {one next : Attempt ε}
    (mannered : ∀ made ∈ (course policy observer shell options token location revision target
      attempt left world).1, made.IsMannered options location target)
    (split : (course policy observer shell options token location revision target attempt left
      world).1 = earlier ++ one :: next :: later) :
    IsVacant one.before.files target ∧
      (∃ fault, one.answer = .error fault ∧ fault.isRetryable = true) ∧
      Follows target one next later
        (course policy observer shell options token location revision target attempt left
          world).2.1 := by
  induction earlier generalizing attempt left world with
  | nil =>
      obtain ⟨head, fewer, ⟨_, _, _, impossible, _⟩ | ⟨between, follows, others, result⟩⟩ :=
        course_eq_cons split
      · cases impossible
      · have found : IsVacant one.before.files target := by
          rw [head]
          exact vacant
        obtain ⟨failed, ⟨cloned, filled⟩ | ⟨uncloned, stillVacant⟩⟩ := files_of_again leaves head
          vacant (mannered one (split ▸ List.mem_cons_self)) follows
        · obtain ⟨idle, refused, last, answered⟩ := course_of_filled filled others
          refine ⟨found, failed, .stuck cloned idle refused last ?_⟩
          rw [result, answered]
        · obtain ⟨second, fewer, ending⟩ := course_eq_cons others
          have ends := Attempt.make_checksOut shell options token location revision target between
          rw [← second] at ends
          refine ⟨found, failed, .resumed uncloned ?_ (ends.of_succeeded stillVacant) fun ok => ?_⟩
          · rw [second]
            exact stillVacant
          · rw [result]
            rcases ending with ⟨answer, after, follows, _, result⟩ | ⟨_, follows, _⟩
            · rw [sequel_of_ok ok] at follows
              obtain ⟨rfl, rfl⟩ := Sequel.ends.inj follows
              rw [result]
            · rw [sequel_of_ok ok] at follows
              cases follows
  | cons first earlier ih =>
      rw [List.cons_append] at split
      obtain ⟨head, fewer, ⟨_, _, _, impossible, _⟩ | ⟨between, follows, others, result⟩⟩ :=
        course_eq_cons split
      · exact absurd impossible (List.append_ne_nil_of_right_ne_nil _ (List.cons_ne_nil _ _))
      · obtain ⟨_, ⟨_, filled⟩ | ⟨_, stillVacant⟩⟩ := files_of_again leaves head vacant
          (mannered first (split ▸ List.mem_cons_self)) follows
        · -- An attempt in a filled target is followed by none, but there are two of them.
          obtain ⟨second, rest, whole, some⟩ : ∃ second rest,
              earlier ++ one :: next :: later = second :: rest ∧ rest ≠ [] := by
            cases earlier with
            | nil => exact ⟨_, _, rfl, List.cons_ne_nil _ _⟩
            | cons second others =>
                exact ⟨_, _, rfl, List.append_ne_nil_of_right_ne_nil _ (List.cons_ne_nil _ _)⟩
          rw [whole] at others
          exact absurd (course_of_filled filled others).2.2.1 some
        · rw [result]
          refine ih stillVacant (fun made member => mannered made ?_) others
          rw [split]
          rw [others] at member
          exact List.mem_cons_of_mem _ member

end

end

/-! ## Checkouts that are taken up again -/

/-- A checkout that fails for the network leaves a vacant target vacant exactly when it has not
cloned the mirror into it.  When it is attempted again, the next attempt makes the tree like a first
one, or it is refused for what the attempt before has cloned, and that is the answer. -/
theorem retrying_checkout_resumes {policy : RetryPolicy} {observer : RetryObserver (Mirrors ε)}
    {shell : Shell ε} {options : Options} {token : Token} {location revision : String}
    {target : Path} {world : World (Mirrors ε)} (leaves : LeavesFiles observer)
    (vacant : IsVacant world.files target)
    (mannered : ∀ made ∈ (course policy observer shell options token location revision target 0
      policy.attempts world).1, made.IsMannered options location target) :
    (∀ (start : World (Mirrors ε)) (fault : Fault), IsVacant start.files target →
      (Attempt.make shell options token location revision target start).IsMannered options location
        target →
      ((backend shell options).checkout token location revision target start).1 = .error fault →
      fault.isRetryable = true →
      (IsVacant ((backend shell options).checkout token location revision target start).2.files
          target ↔
        ¬ (Attempt.make shell options token location revision target start).HasCloned target)) ∧
      ((backend shell options).retrying policy observer).checkout token location revision target
          world =
        (course policy observer shell options token location revision target 0 policy.attempts
          world).2 ∧
      ∀ earlier one next later,
        (course policy observer shell options token location revision target 0 policy.attempts
          world).1 = earlier ++ one :: next :: later →
        IsVacant one.before.files target ∧
          (∃ fault, one.answer = .error fault ∧ fault.isRetryable = true) ∧
          Follows target one next later
            (((backend shell options).retrying policy observer).checkout token location revision
              target world).1 := by
  have same := attemptFrom_eq_course policy observer shell options token location revision target 0
    policy.attempts world
  refine ⟨fun start fault free manners failed retryable => ?_, same, ?_⟩
  · have ends := Attempt.make_checksOut shell options token location revision target start
    exact @Attempt.isVacant_iff_of_retryable _ options token location revision target
      (Attempt.make shell options token location revision target start) fault ends manners free
      failed retryable
  · intro earlier one next later split
    have follows := follows_of_course leaves vacant mannered split
    rw [← same] at follows
    exact follows

theorem noting_leavesFiles : LeavesFiles (RetryObserver.noting : RetryObserver (Mirrors ε)) :=
  fun _ _ => rfl

/-! ### Two networks -/

def patient : RetryPolicy := .ofBase 3 1000000 1.0

def sampleCheckout : Call (Mirrors Playback) Unit :=
  ((backend Playback.answer plainOptions).retrying patient .noting).checkout endless "u" "b1" ⟨"out"⟩

def sampleAttempts (world : World (Mirrors Playback)) : List (Attempt Playback) :=
  (course patient .noting Playback.answer plainOptions endless "u" "b1" ⟨"out"⟩ 0 patient.attempts
    world).1

/-- The network fails while the mirror is cloned into the target. -/
def lostClone : World (Mirrors Playback) :=
  opened (rehearsed [prints "", cutOff, prints "", prints ""])

/-- The network fails once the mirror is cloned.  All commands after that would do their work. -/
def lostDetach : World (Mirrors Playback) :=
  opened (rehearsed [prints "", prints "", cutOff, prints "", prints ""])

theorem retrying_checkout_resumes_lostClone :
    IsVacant lostClone.files ⟨"out"⟩ ∧
      (∀ made ∈ sampleAttempts lostClone, made.IsMannered plainOptions "u" ⟨"out"⟩) ∧
      (sampleCheckout lostClone).1 = .ok () ∧
      ∃ one next, sampleAttempts lostClone = [one, next] ∧
        Follows ⟨"out"⟩ one next [] (sampleCheckout lostClone).1 := by
  have facts : (∀ made ∈ sampleAttempts lostClone, made.IsMannered plainOptions "u" ⟨"out"⟩) ∧
      (sampleCheckout lostClone).1 = .ok () ∧ (sampleAttempts lostClone).length = 2 := by
    decide +kernel
  have vacant : IsVacant lostClone.files ⟨"out"⟩ := by decide +kernel
  obtain ⟨mannered, made, two⟩ := facts
  obtain ⟨one, next, attempts⟩ := List.length_eq_two.mp two
  have resumes := retrying_checkout_resumes noting_leavesFiles vacant mannered
  exact ⟨vacant, mannered, made, one, next, attempts, (resumes.2.2 [] one next [] attempts).2.2⟩

/-- When the network fails between the two commands of a checkout, the target is left filled, and the
second attempt is refused for it, though all its commands would do their work. -/
theorem sampleCheckout_refused_of_lostDetach :
    IsVacant lostDetach.files ⟨"out"⟩ ∧
      (∀ made ∈ sampleAttempts lostDetach, made.IsMannered plainOptions "u" ⟨"out"⟩) ∧
      (sampleAttempts lostDetach).map (fun made => (made.answer, made.after.files.listsAny ⟨"out"⟩)) =
        [(.error (.network "fatal: unable to access 'u': timed out"), .ok true),
          (.error (.other "out exists and is not empty"), .ok true)] ∧
      (sampleCheckout lostDetach).1 = .error (.other "out exists and is not empty") ∧
      (sampleCheckout lostDetach).2.store.host.answers.map (·.reply.succeeded) = [true, true] := by
  decide +kernel

end SourceRecipe.Git
