import SourceRecipe.Backend.Retry
import SourceRecipe.Build.Progress

/-!
# Rehearsals

A rehearsal runs a version control system through faults planned ahead: each waits for a call of
its kind, and the first one in the plan is the only one that a call can meet.  What is told
about failed attempts and about progress is recorded.
-/

namespace SourceRecipe

inductive CallKind where
  | tip
  | revision
  | tag
  | date
  | checkout
  | merge
  | revno
  deriving DecidableEq

def Specifier.callKind : Specifier → CallKind
  | tip => .tip
  | revision _ => .revision
  | tag _ => .tag
  | date _ => .date

/-- A fault to come: the call it waits for, what that call fails with, if anything, and whether
the caller gives up at that moment. -/
structure PlannedFault where
  kind : CallKind
  fault : Option Fault
  givesUp : Bool
  deriving DecidableEq

/-- A system under rehearsal, the plan, the token of the caller, and what was told so far. -/
structure Rehearsal (σ : Type) where
  store : σ
  plan : List PlannedFault
  token : Token
  reports : List RetryReport
  events : List Progress

namespace Rehearsal

variable {σ α : Type}

def initial (store : σ) (token : Token) : Rehearsal σ := ⟨store, [], token, [], []⟩

def record : RetryObserver (Rehearsal σ) := fun report world =>
  { world with store := { world.store with reports := world.store.reports ++ [report] } }

/-- Whether a caller who gives up when operation number `start` starts, or when as many as
`done` are done, gives up at an event. -/
def givesUpAt (start done : Option Nat) : Progress → Bool
  | .starting index _ _ => start == some index
  | .completed index _ _ _ => done == some (index + 1)
  | _ => false

def watch (start done : Option Nat) : Observer (Rehearsal σ) := fun event world =>
  let told := { world with
    store := { world.store with events := world.store.events ++ [event] } }
  if givesUpAt start done event then told.fire world.store.token else told

/-- A call of some kind, which meets the next planned fault if that waits for it. -/
def rehearsed (kind : CallKind) (call : Call σ α) : Call (Rehearsal σ) α := do
  let world ← get
  match world.store.plan with
  | planned :: later =>
      if planned.kind = kind then
        set { world with store := { world.store with plan := later } }
        if planned.givesUp then modify (World.fire world.store.token)
        if let some fault := planned.fault then throw fault
  | [] => pure ()
  call.onPart Rehearsal.store fun store rehearsal => { rehearsal with store }

def undisturbed (inner : Backend σ) : Backend (Rehearsal σ) :=
  inner.onPart Rehearsal.store fun store rehearsal => { rehearsal with store }

def backend (inner : Backend σ) : Backend (Rehearsal σ) where
  lookup token branch specifier :=
    rehearsed specifier.callKind (inner.lookup token branch specifier)
  checkout token branch revision target :=
    rehearsed .checkout (inner.checkout token branch revision target)
  merge token tree branch revision message :=
    rehearsed .merge (inner.merge token tree branch revision message)
  revno token branch revision := rehearsed .revno (inner.revno token branch revision)

end Rehearsal

end SourceRecipe
