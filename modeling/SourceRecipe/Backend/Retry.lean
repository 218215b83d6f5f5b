import SourceRecipe.Backend.Basic
import SourceRecipe.Number.Real

/-!
# Attempting a call again

A call that fails because of the network is attempted again after a pause that grows from one
attempt to the next, up to a limit.  The token is looked at before every attempt and while
pausing, and no pause begins that would outlast its deadline.
-/

namespace SourceRecipe

open SourceRecipe.Text

/-- How often a call is attempted, and the pauses between attempts in nanoseconds. -/
structure RetryPolicy where
  attempts : Nat
  baseDelay : Nat
  factor : Float
  longestDelay : Nat

structure RetryReport where
  attempt : Nat
  attempts : Nat
  fault : Fault
  delay : Nat
  deriving DecidableEq

namespace RetryPolicy

def minute : Nat := 60 * Signals.second

/-- The pauses end after a minute unless said otherwise. -/
def ofBase (attempts baseDelay : Nat) (factor : Float) : RetryPolicy :=
  ⟨attempts, baseDelay, factor, minute⟩

def standard : RetryPolicy :=
  ofBase 3 (2 * Signals.second) 2.0

def single : RetryPolicy :=
  { standard with attempts := 1 }

/-- The largest exponent that a factor is raised to. -/
def largestExponent : Nat := twoTo 31 - 1

/-- The pause after the attempt with this number, counted from zero, if it is a span of time. -/
def delay? (policy : RetryPolicy) (attempt : Nat) : Option Nat :=
  let grown := Binary64.seconds policy.baseDelay *
    Binary64.power policy.factor (min attempt largestExponent)
  Binary64.nanoseconds? (Binary64.lesser grown (Binary64.seconds policy.longestDelay))

end RetryPolicy

def RetryReport.text (report : RetryReport) : String :=
  s!"Attempt {report.attempt}/{report.attempts} failed ({report.fault.category.description}): " ++
    report.fault.message ++ ". Retrying in " ++
    String.ofList (Binary64.fixedText 1 (Binary64.seconds report.delay)) ++ "s..."

abbrev RetryObserver (σ : Type) := RetryReport → World σ → World σ

namespace RetryObserver

variable {σ : Type}

def silent : RetryObserver σ := fun _ world => world

def noting : RetryObserver σ := fun report world => world.note .warning report.text

end RetryObserver

namespace Call

variable {σ α : Type}

/-- The longest span that is paused without looking at the token: a twentieth of a second. -/
def pauseSlice : Nat := 50000000

def pauseSlices (token : Token) : (slices : Nat) → Call σ Unit
  | 0 => pure ()
  | slices + 1 => do
      check token
      modify (World.pass pauseSlice)
      pauseSlices token slices

def pause (token : Token) (span : Nat) : Call σ Unit := do
  pauseSlices token (span / pauseSlice)
  if span % pauseSlice ≠ 0 then
    check token
    modify (World.pass (span % pauseSlice))

/-- Whether a pause would outlast the deadline of a token.  A real clock moves on between pauses,
where this one stands still; so a pause that would end just at the deadline counts as too long. -/
def outlasts (signals : Signals) (token : Token) (delay : Nat) : Bool :=
  match signals.remaining? token with
  | none => false
  | some left => decide (delay ≠ 0 ∧ left ≤ delay)

/-- What follows a failed attempt, the one with number `attempt`, when `left` more may be made
by `again`. -/
def afterFault (policy : RetryPolicy) (observer : RetryObserver σ) (token : Token)
    (attempt left : Nat) (fault : Fault) (again : Call σ α) : Call σ α := do
  if !fault.isRetryable || left = 0 then throw fault
  match policy.delay? attempt with
  | none => throw .endlessPause
  | some delay =>
      if outlasts (← get).signals token delay then throw fault
      modify (observer ⟨attempt + 1, policy.attempts, fault, delay⟩)
      pause token delay
      again

/-- The attempts from number `attempt` on, at most as many as given. -/
def attemptFrom (policy : RetryPolicy) (observer : RetryObserver σ) (token : Token)
    (call : Call σ α) (attempt : Nat) : (left : Nat) → Call σ α
  | 0 => throw (.other "retry exhausted")
  | left + 1 => do
      check token
      tryCatch call fun fault =>
        afterFault policy observer token attempt left fault
          (attemptFrom policy observer token call (attempt + 1) left)

def retrying (policy : RetryPolicy) (observer : RetryObserver σ) (token : Token)
    (call : Call σ α) : Call σ α :=
  attemptFrom policy observer token call 0 policy.attempts

end Call

def Backend.retrying {σ : Type} (policy : RetryPolicy) (observer : RetryObserver σ)
    (backend : Backend σ) : Backend σ where
  lookup token branch specifier :=
    (backend.lookup token branch specifier).retrying policy observer token
  checkout token branch revision target :=
    (backend.checkout token branch revision target).retrying policy observer token
  merge token tree branch revision message :=
    (backend.merge token tree branch revision message).retrying policy observer token
  revno token branch revision :=
    (backend.revno token branch revision).retrying policy observer token

end SourceRecipe
