import SourceRecipe.Proofs.Git.Sessions

/-!
# Single checkouts

A checkout is two commands in its target, a clone and a checkout of the revision, behind a look at
the target and its mirror.  `ChecksOut` lists where it can end.  When the network fails, the target
is left as it was found unless the clone has done its work already.
-/

namespace SourceRecipe.Git

variable {ε : Type}

/-! ## Where a checkout ends -/

def cloneCommand (options : Options) (location : String) (target : Path) : Command :=
  gitCommand options none
    ["clone", "--quiet", "--no-checkout", (mirrorPath options location).text, target.text]

def detachCommand (options : Options) (target : Path) (revision : String) : Command :=
  gitCommand options (some target) ["checkout", "--quiet", "--detach", revision]

/-- How a call gets its mirror: it has been brought up to date before, or is now. -/
inductive Mirrored (options : Options) (token : Token) (location : String)
    (before : World (Mirrors ε)) : List Started → World (Mirrors ε) → Prop
  | known : Mirrored options token location before [] before
  | refreshed {first between} (refreshes : Refreshes options token location before first (.ok ())
      between) : Mirrored options token location before first between

/-- How a checkout can end: the commands that it started, its answer, and the world after it. -/
inductive ChecksOut (options : Options) (token : Token) (location revision : String) (target : Path)
    (before : World (Mirrors ε)) :
    List Started → Except Fault Unit → World (Mirrors ε) → Prop
  /-- No tree can be made at the target. -/
  | refused {fault} (refusal : targetFault? before.files target = some fault) :
      ChecksOut options token location revision target before [] (.error fault) before
  /-- The mirror could not be brought up to date. -/
  | unmirrored {first fault after} (vacant : IsVacant before.files target)
      (refreshes : Refreshes options token location before first (.error fault) after) :
      ChecksOut options token location revision target before first (.error fault) after
  /-- The mirror could not be cloned. -/
  | uncloned {first between second fault after} (vacant : IsVacant before.files target)
      (mirrored : Mirrored options token location before first between)
      (clones : RunsChecked token location (cloneCommand options location target) between second
        (.error fault) after) :
      ChecksOut options token location revision target before (first ++ second) (.error fault) after
  /-- The mirror was cloned, but the files of the revision could not be made. -/
  | undetached {first between second reply copied third fault after}
      (vacant : IsVacant before.files target)
      (mirrored : Mirrored options token location before first between)
      (clones : RunsChecked token location (cloneCommand options location target) between second
        (.ok reply) copied)
      (detaches : RunsChecked token location (detachCommand options target revision) copied third
        (.error fault) after) :
      ChecksOut options token location revision target before (first ++ (second ++ third))
        (.error fault) after
  /-- The tree was made. -/
  | done {first between second reply copied third answer after}
      (vacant : IsVacant before.files target)
      (mirrored : Mirrored options token location before first between)
      (clones : RunsChecked token location (cloneCommand options location target) between second
        (.ok reply) copied)
      (detaches : RunsChecked token location (detachCommand options target revision) copied third
        (.ok answer) after) :
      ChecksOut options token location revision target before (first ++ (second ++ third)) (.ok ())
        after

section

variable (shell : Shell ε) (options : Options) (token : Token) (location revision : String)
  (target : Path)

/-- A checkout gets its mirror, unless that cannot be brought up to date. -/
theorem mirror_goes (request : Request) (world : World (Mirrors ε)) :
    (∃ first between,
      Goes (request.mirror shell options) (request.mirror shell.logged options) world first
        (.ok (mirrorPath options request.location)) between ∧
      Mirrored options request.token request.location world first between) ∨
    ∃ first fault after,
      Goes (request.mirror shell options) (request.mirror shell.logged options) world first
        (.error fault) after ∧
      Refreshes options request.token request.location world first (.error fault) after := by
  by_cases due : request.IsDue world.store.fetched
  · obtain ⟨first, answer, between, refreshing, refreshes⟩ :=
      refresh_goes shell options request.token request.location world
    have getting := request.mirror_goes_of_due shell options due refreshing
    cases answer with
    | error fault => exact .inr ⟨_, _, _, getting, refreshes⟩
    | ok done => exact .inl ⟨_, _, getting, .refreshed refreshes⟩
  · exact .inl ⟨[], world, request.mirror_goes_of_content shell options due, .known⟩

/-- A checkout ends in one of the ways that are listed. -/
theorem checkout_goes (world : World (Mirrors ε)) :
    ∃ started answer after,
      Goes ((Request.checkout token location revision target).call shell options)
        ((Request.checkout token location revision target).call shell.logged options) world started
        answer after ∧
      ChecksOut options token location revision target world started answer after := by
  rw [Request.call_eq, Request.call_eq]
  have looked := (Request.checkout token location revision target).check_goes world
  cases refusal : targetFault? world.files target with
  | some fault =>
      rw [Request.refusal?, refusal] at looked
      exact ⟨_, _, _, looked.bind_error, .refused refusal⟩
  | none =>
      rw [Request.refusal?, refusal] at looked
      have vacant := targetFault?_eq_none_iff.mp refusal
      rcases mirror_goes shell options (.checkout token location revision target) world with
        ⟨first, between, getting, mirrored⟩ | ⟨first, fault, after, failing, refreshes⟩
      · obtain ⟨second, answer, copied, cloning, clones⟩ :=
          runChecked_goes shell options token location none
            ["clone", "--quiet", "--no-checkout", (mirrorPath options location).text, target.text]
            between
        cases answer with
        | error fault =>
            exact ⟨first ++ second, _, _, looked.bind_ok (getting.bind_ok cloning.bind_error),
              .uncloned vacant mirrored clones⟩
        | ok reply =>
            obtain ⟨third, answer, after, detaching, detaches⟩ :=
              runChecked_goes shell options token location (some target)
                ["checkout", "--quiet", "--detach", revision] copied
            cases answer with
            | error fault =>
                exact ⟨first ++ (second ++ third), _, _,
                  looked.bind_ok (getting.bind_ok (cloning.bind_ok detaching.bind_error)),
                  .undetached vacant mirrored clones detaches⟩
            | ok answer =>
                exact ⟨first ++ (second ++ third), _, _,
                  looked.bind_ok (getting.bind_ok (cloning.bind_ok
                    (detaching.bind_silent (.nothing rfl fun _ => rfl)))),
                  .done vacant mirrored clones detaches⟩
      · exact ⟨_, _, _, looked.bind_ok failing.bind_error, .unmirrored vacant refreshes⟩

end

/-! ## Attempts -/

/-- A checkout that was made in a world: the commands that it started, its answer, and the world
after it. -/
structure Attempt (ε : Type) where
  before : World (Mirrors ε)
  started : List Started
  answer : Except Fault Unit
  after : World (Mirrors ε)

def Command.clonesInto (target : Path) (command : Command) : Bool :=
  ["clone", "--quiet", "--no-checkout"].isPrefixOf command.arguments &&
    command.arguments.getLast? == some target.text

/-- Whether commands leave a target as it was, unless they clone a mirror into it and do their
work. -/
def LeaveTarget (target : Path) (started : List Started) : Prop :=
  ∀ one ∈ started, ¬ (one.command.clonesInto target = true ∧ one.succeeded = true) →
    (IsVacant one.before target → IsVacant one.after target) ∧
      (IsFilled one.before target → IsFilled one.after target)

instance (target : Path) (started : List Started) : Decidable (LeaveTarget target started) :=
  inferInstanceAs (Decidable (∀ one ∈ started, _))

namespace Attempt

def make (shell : Shell ε) (options : Options) (token : Token) (location revision : String)
    (target : Path) (before : World (Mirrors ε)) : Attempt ε where
  before
  started :=
    commandsOf ((backend shell.logged options).checkout token location revision target) before
  answer := ((backend shell options).checkout token location revision target before).1
  after := ((backend shell options).checkout token location revision target before).2

def HasCloned (target : Path) (attempt : Attempt ε) : Prop :=
  ∃ one ∈ attempt.started, one.command.clonesInto target = true ∧ one.succeeded = true

/-- What is taken for granted of the commands of an attempt: a clone that does its work fills its
target, and all else leaves the target as it was. -/
structure IsMannered (options : Options) (location : String) (target : Path)
    (attempt : Attempt ε) : Prop where
  aside : IsVacant attempt.before.files target →
    IsVacant (readied options location attempt.before.files) target
  fills : ∀ one ∈ attempt.started, one.command.clonesInto target = true → one.succeeded = true →
    IsFilled one.after target
  leaves : LeaveTarget target attempt.started

instance (options : Options) (location : String) (target : Path) (attempt : Attempt ε) :
    Decidable (attempt.IsMannered options location target) :=
  decidable_of_iff (_ ∧ _ ∧ _)
    ⟨fun parts => ⟨parts.1, parts.2.1, parts.2.2⟩, fun manners =>
      ⟨manners.aside, manners.fills, manners.leaves⟩⟩

theorem make_checksOut (shell : Shell ε) (options : Options) (token : Token)
    (location revision : String) (target : Path) (world : World (Mirrors ε)) :
    ChecksOut options token location revision target world
      (make shell options token location revision target world).started
      (make shell options token location revision target world).answer
      (make shell options token location revision target world).after := by
  obtain ⟨started, answer, after, goes, checksOut⟩ :=
    checkout_goes shell options token location revision target world
  have first := goes.commandsOf_eq
  have rest := goes.ran
  simp only [make]
  simp only [Request.call] at first rest
  rw [first, rest]
  exact checksOut

end Attempt

theorem refreshCommand_clonesInto (options : Options) (location : String) (files : FileTree)
    (target : Path) : (refreshCommand options location files).clonesInto target = false := by
  rw [refreshCommand]
  split <;> rfl

theorem cloneCommand_clonesInto (options : Options) (location : String) (target : Path) :
    (cloneCommand options location target).clonesInto target = true := by
  rw [cloneCommand, Command.clonesInto, Bool.and_eq_true, beq_iff_eq]
  exact ⟨rfl, rfl⟩

section

variable {options : Options} {token : Token} {location : String} {target : Path}
  {before after : World (Mirrors ε)} {started : List Started}

/-- No tree is cloned where a mirror is brought up to date. -/
theorem Refreshes.clones_none {answer : Except Fault Unit}
    (refreshes : Refreshes options token location before started answer after) :
    ∀ one ∈ started, one.command.clonesInto target = false := by
  intro one member
  cases refreshes with
  | cancelled fired kept => exact absurd member List.not_mem_nil
  | homeless missing failed kept => exact absurd member List.not_mem_nil
  | failed command found faulty kept left gone =>
      rw [List.mem_singleton.mp member, command]
      exact refreshCommand_clonesInto options location _ target
  | done command found succeeded counted left =>
      rw [List.mem_singleton.mp member, command]
      exact refreshCommand_clonesInto options location _ target

/-- A target stays vacant while a mirror is brought up to date, and when that fails for the
network. -/
theorem Refreshes.isVacant {answer : Except Fault Unit}
    (refreshes : Refreshes options token location before started answer after)
    (leave : LeaveTarget target started)
    (vacant : IsVacant (readied options location before.files) target)
    (lasting : ∀ fault, answer = .error fault → fault.isRetryable = true) :
    IsVacant after.files target := by
  have none {one : Started} (member : one ∈ started) :
      ¬ (one.command.clonesInto target = true ∧ one.succeeded = true) := by
    rw [refreshes.clones_none one member]
    exact fun both => Bool.false_ne_true both.1
  cases refreshes with
  | cancelled fired kept => exact absurd (lasting _ rfl) (by decide)
  | homeless missing failed kept => exact absurd (lasting _ rfl) Bool.false_ne_true
  | @failed one fault after command found faulty kept left gone =>
      have kept := (leave one (List.mem_singleton_self one) (none (List.mem_singleton_self one))).1
      rw [found] at kept
      rw [left, cleared]
      split
      · exact kept vacant
      · exact (kept vacant).removeDirectory _
  | @done one after command found succeeded counted left =>
      have kept := (leave one (List.mem_singleton_self one) (none (List.mem_singleton_self one))).1
      rw [found] at kept
      rw [left]
      exact kept vacant

/-- A command that fails for the network leaves a target as it was. -/
theorem RunsChecked.leaves {command : Command} {fault : Fault}
    (runs : RunsChecked token location command before started (.error fault) after)
    (leave : LeaveTarget target started) (retryable : fault.isRetryable = true) :
    (∀ one ∈ started, one.succeeded = false) ∧
      (IsVacant before.files target → IsVacant after.files target) ∧
        (IsFilled before.files target → IsFilled after.files target) := by
  cases runs with
  | cancelled fired => cases retryable
  | @failed one fault after issued found left kept faulty =>
      have unsuccessful : one.succeeded = false := by
        rw [← Bool.not_eq_true, ← Started.fault?_eq_none_iff, faulty]
        exact Option.some_ne_none _
      refine ⟨fun other member => List.mem_singleton.mp member ▸ unsuccessful, ?_⟩
      rw [left, ← found]
      refine leave one (List.mem_singleton_self one) ?_
      rw [unsuccessful]
      exact fun both => Bool.false_ne_true both.2

/-- A target stays vacant while a call gets its mirror. -/
theorem Mirrored.keeps (mirrored : Mirrored options token location before started after)
    (leave : LeaveTarget target started) (vacant : IsVacant before.files target)
    (aside : IsVacant before.files target →
      IsVacant (readied options location before.files) target) :
    (∀ one ∈ started, one.command.clonesInto target = false) ∧ IsVacant after.files target := by
  cases mirrored with
  | known => exact ⟨fun _ member => absurd member List.not_mem_nil, vacant⟩
  | refreshed refreshes =>
      refine ⟨refreshes.clones_none, refreshes.isVacant leave (aside vacant) ?_⟩
      intro fault impossible
      cases impossible

/-- A command that did not fail was kept from being started by the token. -/
theorem RunsChecked.of_succeeded {command : Command} {fault : Fault}
    (runs : RunsChecked token location command before started (.error fault) after)
    (succeeded : ∀ one ∈ started, one.succeeded = true) : fault = .cancelled := by
  cases runs with
  | cancelled fired => rfl
  | @failed one fault after issued found left kept faulty =>
      have none : one.fault? location = none :=
        Started.fault?_eq_none_iff.mpr (succeeded one (List.mem_singleton_self one))
      rw [faulty] at none
      cases none

namespace ChecksOut

variable {revision : String} {answer : Except Fault Unit}

theorem of_filled (ends : ChecksOut options token location revision target before started answer
      after)
    (filled : IsFilled before.files target) :
    started = [] ∧ answer = .error (.other s!"{target.text} exists and is not empty") ∧
      after = before := by
  cases ends with
  | refused refusal =>
      rw [targetFault?_of_filled filled] at refusal
      cases refusal
      exact ⟨rfl, rfl, rfl⟩
  | unmirrored vacant refreshes => exact absurd vacant filled.not_isVacant
  | uncloned vacant mirrored clones => exact absurd vacant filled.not_isVacant
  | undetached vacant mirrored clones detaches => exact absurd vacant filled.not_isVacant
  | done vacant mirrored clones detaches => exact absurd vacant filled.not_isVacant

/-- When all its commands do their work, a checkout into a vacant target makes the tree, unless the
token fires or there can be no directory for the mirror. -/
theorem of_succeeded (ends : ChecksOut options token location revision target before started answer
      after)
    (vacant : IsVacant before.files target)
    (succeeded : ∀ one ∈ started, one.succeeded = true) :
    answer = .ok () ∨ answer = .error .cancelled ∨ ∃ error, answer = .error (fileFault error) := by
  cases ends with
  | refused refusal =>
      rw [targetFault?_eq_none_iff.mpr vacant] at refusal
      cases refusal
  | unmirrored _ refreshes =>
      cases refreshes with
      | cancelled fired kept => exact .inr (.inl rfl)
      | homeless missing failed kept => exact .inr (.inr ⟨_, rfl⟩)
      | @failed one fault after command found faulty kept left gone =>
          have none : one.fault? location = none :=
            Started.fault?_eq_none_iff.mpr (succeeded one (List.mem_singleton_self one))
          rw [faulty] at none
          cases none
  | uncloned _ mirrored clones =>
      rw [clones.of_succeeded fun one member => succeeded one (List.mem_append_right _ member)]
      exact .inr (.inl rfl)
  | undetached _ mirrored clones detaches =>
      rw [detaches.of_succeeded fun one member =>
        succeeded one (List.mem_append_right _ (List.mem_append_right _ member))]
      exact .inr (.inl rfl)
  | done _ mirrored clones detaches => exact .inl rfl

end ChecksOut

end

namespace Attempt

/-- After a failure of the network the target is as vacant as before, unless the mirror was cloned
into it: then it is filled. -/
theorem ends_of_retryable {options : Options} {token : Token} {location revision : String}
    {target : Path} {attempt : Attempt ε} {fault : Fault}
    (ends : ChecksOut options token location revision target attempt.before attempt.started
      attempt.answer attempt.after)
    (mannered : attempt.IsMannered options location target)
    (vacant : IsVacant attempt.before.files target) (failed : attempt.answer = .error fault)
    (retryable : fault.isRetryable = true) :
    attempt.HasCloned target ∧ IsFilled attempt.after.files target ∨
      ¬ attempt.HasCloned target ∧ IsVacant attempt.after.files target := by
  obtain ⟨aside, fills, leaves⟩ := mannered
  obtain ⟨before, started, answer, after⟩ := attempt
  dsimp only at *
  subst failed
  cases ends with
  | refused refusal =>
      rw [targetFault?_eq_none_iff.mpr vacant] at refusal
      cases refusal
  | unmirrored _ refreshes =>
      refine .inr ⟨?_, refreshes.isVacant leaves (aside vacant) fun other same => ?_⟩
      · rintro ⟨one, member, clones, _⟩
        rw [refreshes.clones_none one member] at clones
        cases clones
      · cases same
        exact retryable
  | @uncloned first between second _ _ _ mirrored clones =>
      have leavesFirst : LeaveTarget target first :=
        fun one member => leaves one (List.mem_append_left _ member)
      have leavesSecond : LeaveTarget target second :=
        fun one member => leaves one (List.mem_append_right _ member)
      obtain ⟨none, stillVacant⟩ := mirrored.keeps leavesFirst vacant aside
      obtain ⟨unsuccessful, kept, _⟩ := clones.leaves leavesSecond retryable
      refine .inr ⟨?_, kept stillVacant⟩
      rintro ⟨one, member, cloned, succeeded⟩
      rcases List.mem_append.mp member with early | late
      · rw [none one early] at cloned
        cases cloned
      · rw [unsuccessful one late] at succeeded
        cases succeeded
  | @undetached first between second reply copied third _ _ _ mirrored clones detaches =>
      cases clones with
      | @done one _ _ issued found left kept succeeded =>
          have cloned : one.command.clonesInto target = true := by
            rw [issued]
            exact cloneCommand_clonesInto options location target
          have among : one ∈ first ++ ([one] ++ third) :=
            List.mem_append_right _ (List.mem_append_left _ (List.mem_singleton_self one))
          have filled : IsFilled copied.files target := by
            rw [left]
            exact fills one among cloned succeeded
          have leavesThird : LeaveTarget target third := fun other member =>
            leaves other (List.mem_append_right _ (List.mem_append_right _ member))
          exact .inl ⟨⟨one, among, cloned, succeeded⟩,
            (detaches.leaves leavesThird retryable).2.2 filled⟩

/-- A target is vacant after a failure of the network exactly when the mirror was not cloned into
it. -/
theorem isVacant_iff_of_retryable {options : Options} {token : Token} {location revision : String}
    {target : Path} {attempt : Attempt ε} {fault : Fault}
    (ends : ChecksOut options token location revision target attempt.before attempt.started
      attempt.answer attempt.after)
    (mannered : attempt.IsMannered options location target)
    (vacant : IsVacant attempt.before.files target) (failed : attempt.answer = .error fault)
    (retryable : fault.isRetryable = true) :
    IsVacant attempt.after.files target ↔ ¬ attempt.HasCloned target := by
  rcases ends_of_retryable ends mannered vacant failed retryable with
    ⟨cloned, filled⟩ | ⟨uncloned, stillVacant⟩
  · exact iff_of_false filled.not_isVacant (not_not_intro cloned)
  · exact iff_of_true stillVacant uncloned

/-- A target with something in it is refused, and no command is started. -/
theorem make_of_filled (shell : Shell ε) (options : Options) (token : Token)
    (location revision : String) {target : Path} {world : World (Mirrors ε)}
    (filled : IsFilled world.files target) :
    make shell options token location revision target world =
      ⟨world, [], .error (.other s!"{target.text} exists and is not empty"), world⟩ := by
  have ends := make_checksOut shell options token location revision target world
  obtain ⟨started, answer, after⟩ := ends.of_filled filled
  calc
    make shell options token location revision target world
        = ⟨world, (make shell options token location revision target world).started,
            (make shell options token location revision target world).answer,
            (make shell options token location revision target world).after⟩ := rfl
    _ = _ := by rw [started, answer, after]

end Attempt

end SourceRecipe.Git
