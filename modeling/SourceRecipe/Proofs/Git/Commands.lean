import SourceRecipe.Git.Backend
import SourceRecipe.Proofs.Backend.Attempts

/-!
# Commands that were started

What a call asks of `git` is known from the commands that it starts.  A shell that keeps a log of
them answers like the shell it stands for, so that a call on it goes the same way: `Goes` says which
commands a call starts and what comes of it, and that it does nothing else on account of the log.
-/

namespace SourceRecipe.Git

variable {ε α β : Type}

structure Started where
  command : Command
  answer : Except Fault Reply
  before : FileTree
  after : FileTree

namespace Started

def succeeded (one : Started) : Bool :=
  match one.answer with
  | .ok reply => reply.succeeded
  | .error _ => false

/-- The fault that a command which does not do its work on behalf of a location is answered
with. -/
def fault? (location : String) (one : Started) : Option Fault :=
  match one.answer with
  | .ok reply =>
      if reply.succeeded then none
      else some (.ofGitOutput reply.errorText location one.command.directory)
  | .error fault => some fault

theorem fault?_eq_none_iff {location : String} {one : Started} :
    one.fault? location = none ↔ one.succeeded = true := by
  rw [fault?, succeeded]
  cases one.answer with
  | error fault => simp
  | ok reply => cases reply.succeeded <;> simp

end Started

structure Logged (ε : Type) where
  host : ε
  log : List Started

def Shell.logged (shell : Shell ε) : Shell (Logged ε) := fun token command world =>
  let (answer, after) := shell token command (world.withStore world.store.host)
  (answer, after.withStore
    ⟨after.store, world.store.log ++ [⟨command, answer, world.files, after.files⟩]⟩)

def withLog (log : List Started) (world : World (Mirrors ε)) : World (Mirrors (Logged ε)) :=
  world.withStore ⟨world.store.fetched, ⟨world.store.host, log⟩⟩

def commandsOf (logged : Call (Mirrors (Logged ε)) α) (world : World (Mirrors ε)) : List Started :=
  (logged (withLog [] world)).2.store.host.log

/-- Whether a call starts these commands in a world, is answered so and leaves this world, and goes
the same way when its commands are logged. -/
structure Goes (call : Call (Mirrors ε) α) (logged : Call (Mirrors (Logged ε)) α)
    (world : World (Mirrors ε)) (started : List Started) (answer : Except Fault α)
    (after : World (Mirrors ε)) : Prop where
  ran : call world = (answer, after)
  logged : ∀ log, logged (withLog log world) = (answer, withLog (log ++ started) after)

namespace Goes

variable {call : Call (Mirrors ε) α} {logged : Call (Mirrors (Logged ε)) α}
  {next : α → Call (Mirrors ε) β} {nextLogged : α → Call (Mirrors (Logged ε)) β}
  {world between after : World (Mirrors ε)} {first second : List Started} {answer : Except Fault α}

theorem commandsOf_eq (goes : Goes call logged world first answer after) :
    commandsOf logged world = first := by
  rw [commandsOf, goes.logged]
  rfl

/-- A call that looks at no log starts nothing. -/
theorem nothing (ran : call world = (answer, after))
    (same : ∀ log, logged (withLog log world) = (answer, withLog log after)) :
    Goes call logged world [] answer after := by
  refine ⟨ran, fun log => ?_⟩
  rw [same, List.append_nil]

theorem bind_ok {given : α} {answer : Except Fault β}
    (goes : Goes call logged world first (.ok given) between)
    (goesOn : Goes (next given) (nextLogged given) between second answer after) :
    Goes (call >>= next) (logged >>= nextLogged) world (first ++ second) answer after := by
  constructor
  · rw [run_bind, goes.ran]
    exact goesOn.ran
  · intro log
    rw [run_bind, goes.logged]
    dsimp only
    rw [goesOn.logged, List.append_assoc]

/-- What follows without a command adds nothing to what was started. -/
theorem bind_silent {given : α} {answer : Except Fault β}
    (goes : Goes call logged world first (.ok given) between)
    (silent : Goes (next given) (nextLogged given) between [] answer after) :
    Goes (call >>= next) (logged >>= nextLogged) world first answer after := by
  have both := goes.bind_ok silent
  rw [List.append_nil] at both
  exact both

theorem bind_error {fault : Fault}
    (goes : Goes call logged world first (.error fault) between) :
    Goes (call >>= next) (logged >>= nextLogged) world first (.error fault) between := by
  constructor
  · rw [run_bind, goes.ran]
  · intro log
    rw [run_bind, goes.logged]

theorem tryCatch_ok {given : α} {handler : Fault → Call (Mirrors ε) α}
    {handlerLogged : Fault → Call (Mirrors (Logged ε)) α}
    (goes : Goes call logged world first (.ok given) between) :
    Goes (tryCatch call handler) (tryCatch logged handlerLogged) world first (.ok given)
      between := by
  constructor
  · rw [Call.tryCatch_run, goes.ran]
  · intro log
    rw [Call.tryCatch_run, goes.logged]

theorem tryCatch_error {fault : Fault} {handler : Fault → Call (Mirrors ε) α}
    {handlerLogged : Fault → Call (Mirrors (Logged ε)) α}
    (goes : Goes call logged world first (.error fault) between)
    (silent : Goes (handler fault) (handlerLogged fault) between [] answer after) :
    Goes (tryCatch call handler) (tryCatch logged handlerLogged) world first answer after := by
  constructor
  · rw [Call.tryCatch_run, goes.ran]
    exact silent.ran
  · intro log
    rw [Call.tryCatch_run, goes.logged]
    dsimp only
    rw [silent.logged, List.append_nil]

/-- What goes the same way may be put in its place. -/
theorem congr {other : Call (Mirrors ε) α} {otherLogged : Call (Mirrors (Logged ε)) α}
    (goes : Goes call logged world first answer after) (same : other world = call world)
    (sameLogged : ∀ log, otherLogged (withLog log world) = logged (withLog log world)) :
    Goes other otherLogged world first answer after :=
  ⟨same.trans goes.ran, fun log => (sameLogged log).trans (goes.logged log)⟩

end Goes

/-! ## Single commands -/

def gitCommand (options : Options) (directory : Option Path) (arguments : List String) : Command :=
  ⟨options.program, directory, arguments, false⟩

/-- How a run of `git` can end: the commands that it started, its answer, and the world after it. -/
inductive Runs (token : Token) (command : Command) (before : World (Mirrors ε)) :
    List Started → Except Fault Reply → World (Mirrors ε) → Prop
  /-- The token had fired. -/
  | cancelled (fired : before.hasFired token = true) :
      Runs token command before [] (.error .cancelled) before
  /-- The command was started. -/
  | issued {one after} (quiet : before.hasFired token = false) (issued : one.command = command)
      (found : one.before = before.files) (left : after.files = one.after)
      (kept : after.store.fetched = before.store.fetched) :
      Runs token command before [one] one.answer after

inductive RunsChecked (token : Token) (location : String) (command : Command)
    (before : World (Mirrors ε)) :
    List Started → Except Fault Reply → World (Mirrors ε) → Prop
  /-- The token had fired. -/
  | cancelled (fired : before.hasFired token = true) :
      RunsChecked token location command before [] (.error .cancelled) before
  /-- The command failed. -/
  | failed {one fault after} (issued : one.command = command) (found : one.before = before.files)
      (left : after.files = one.after) (kept : after.store.fetched = before.store.fetched)
      (faulty : one.fault? location = some fault) :
      RunsChecked token location command before [one] (.error fault) after
  /-- The command did its work. -/
  | done {one reply after} (issued : one.command = command) (found : one.before = before.files)
      (left : after.files = one.after) (kept : after.store.fetched = before.store.fetched)
      (succeeded : one.succeeded = true) :
      RunsChecked token location command before [one] (.ok reply) after

section

variable (shell : Shell ε) (options : Options) (token : Token) (location : String)
  (directory : Option Path) (arguments : List String) (world : World (Mirrors ε))

def issue (command : Command) : Call (Mirrors ε) Reply :=
  (shell (some token) command).onPart Mirrors.host fun host mirrors => { mirrors with host }

def startedIn (command : Command) : Started :=
  ⟨command, (issue shell token command world).1, world.files,
    (issue shell token command world).2.files⟩

theorem goes_issue (command : Command) :
    Goes (issue shell token command) (issue shell.logged token command) world
      [startedIn shell token world command] (startedIn shell token world command).answer
      (issue shell token command world).2 :=
  ⟨rfl, fun _ => rfl⟩

variable {world}

theorem run_of_quiet (quiet : world.hasFired token = false) :
    run shell options token directory arguments world =
      issue shell token (gitCommand options directory arguments) world := by
  rw [run, run_bind, Call.check_of_quiet quiet]
  rfl

theorem run_of_fired (fired : world.hasFired token = true) :
    run shell options token directory arguments world = (.error .cancelled, world) := by
  rw [run, run_bind, Call.check_of_fired fired]

variable (world)

theorem run_goes :
    ∃ started answer after,
      Goes (run shell options token directory arguments)
        (run shell.logged options token directory arguments) world started answer after ∧
      Runs token (gitCommand options directory arguments) world started answer after := by
  by_cases fired : world.hasFired token = true
  · refine ⟨[], _, _, .nothing (run_of_fired shell options token directory arguments fired)
      fun log => ?_, .cancelled fired⟩
    exact run_of_fired shell.logged options token directory arguments (by exact fired)
  · rw [Bool.not_eq_true] at fired
    refine ⟨_, _, _, (goes_issue shell token world _).congr
      (run_of_quiet shell options token directory arguments fired) fun log => ?_,
      .issued fired rfl rfl rfl rfl⟩
    exact run_of_quiet shell.logged options token directory arguments (by exact fired)

theorem runChecked_goes :
    ∃ started answer after,
      Goes (runChecked shell options token location directory arguments)
        (runChecked shell.logged options token location directory arguments) world started answer
        after ∧
      RunsChecked token location (gitCommand options directory arguments) world started answer
        after := by
  obtain ⟨started, answer, after, goes, runs⟩ :=
    run_goes shell options token directory arguments world
  cases runs with
  | cancelled fired => exact ⟨_, _, _, goes.bind_error, .cancelled fired⟩
  | @issued one after quiet issued found left kept =>
      cases answered : one.answer with
      | error fault =>
          rw [answered] at goes
          refine ⟨_, _, _, goes.bind_error, .failed issued found left kept ?_⟩
          rw [Started.fault?, answered]
      | ok reply =>
          rw [answered] at goes
          cases succeeded : reply.succeeded with
          | true =>
              refine ⟨_, .ok reply, _, goes.bind_silent (.nothing ?_ fun log => ?_),
                .done issued found left kept ?_⟩
              · simp only [succeeded]
                rfl
              · simp only [succeeded]
                rfl
              · rw [Started.succeeded, answered]
                exact succeeded
          | false =>
              refine ⟨_, .error (.ofGitOutput reply.errorText location directory), _,
                goes.bind_silent (.nothing ?_ fun log => ?_), .failed issued found left kept ?_⟩
              · simp only [succeeded]
                rfl
              · simp only [succeeded]
                rfl
              · rw [Started.fault?, answered, issued]
                simp only [succeeded]
                rfl

end

end SourceRecipe.Git
