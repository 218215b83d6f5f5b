import SourceRecipe.Number.Powers

/-!
# Giving up

A token tells everyone who holds a copy of it that the caller has given up: it fires by hand,
which all copies see, or when its deadline passes.  What has been fired, and what time it is, is
kept with the world that the calls act on.

Times are nanoseconds on a clock that was started some time before.
-/

namespace SourceRecipe

/-- A token: the flag that fires it by hand, and its deadline. -/
structure Token where
  flag : Nat
  deadline : Option Nat
  deriving DecidableEq

structure Signals where
  fired : List Nat
  issued : Nat
  now : Nat
  deriving DecidableEq

namespace Signals

def second : Nat := 1000000000

/-- The first time that the clock cannot show. -/
def lastTime : Nat := twoTo 63 * second

/-- Nothing has fired, and the clock has run for a second. -/
def initial : Signals := ⟨[], 0, second⟩

/-- A new token.  One whose timeout ends after the last time the clock can show has no
deadline. -/
def issue (signals : Signals) (timeout : Option Nat) : Token × Signals :=
  let deadline := timeout.bind fun span =>
    if signals.now + span < lastTime then some (signals.now + span) else none
  (⟨signals.issued, deadline⟩, { signals with issued := signals.issued + 1 })

def fire (signals : Signals) (token : Token) : Signals :=
  { signals with fired := token.flag :: signals.fired }

def pass (signals : Signals) (span : Nat) : Signals :=
  { signals with now := signals.now + span }

def isFired (signals : Signals) (token : Token) : Bool :=
  signals.fired.contains token.flag ||
    match token.deadline with
    | none => false
    | some deadline => decide (deadline ≤ signals.now)

def remaining? (signals : Signals) (token : Token) : Option Nat :=
  token.deadline.map (· - signals.now)

end Signals

end SourceRecipe
