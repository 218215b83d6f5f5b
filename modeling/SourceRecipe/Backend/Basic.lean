import SourceRecipe.Specifier
import SourceRecipe.World

/-!
# Version control systems

What a build needs from a version control system: looking up revisions, making a working tree,
merging into one, and counting revisions.  A call takes a world to an answer, or a fault, and
the world after it; it is told which token to look at while it runs.
-/

namespace SourceRecipe

/-- A call on a version control system that keeps `σ`. -/
abbrev Call (σ α : Type) := ExceptT Fault (StateM (World σ)) α

inductive MergeOutcome where
  /-- New history was merged and committed. -/
  | merged
  /-- The revision was in the history of the tree already. -/
  | upToDate
  deriving DecidableEq

structure Backend (σ : Type) where
  /-- The revision that a specifier means in a branch. -/
  lookup (token : Token) (branch : String) (specifier : Specifier) : Call σ String
  /-- Makes a working tree of a branch at a revision. -/
  checkout (token : Token) (branch revision : String) (target : Path) : Call σ Unit
  /-- Merges a revision of a branch into a working tree and commits the result with a message. -/
  merge (token : Token) (tree : Path) (branch revision message : String) : Call σ MergeOutcome
  /-- The number of a revision in its branch, if revisions are numbered. -/
  revno (token : Token) (branch revision : String) : Call σ (Option Nat)

namespace Call

variable {σ τ α : Type}

def answer (call : Call σ α) (world : World σ) : Except Fault α × World σ :=
  call.run world

def check (token : Token) : Call σ Unit := do
  if (← get).hasFired token then throw .cancelled

def onPart (part : τ → σ) (put : σ → τ → τ) (call : Call σ α) : Call τ α := fun world =>
  let (answer, after) := call (world.withStore (part world.store))
  (answer, after.withStore (put after.store world.store))

end Call

namespace Backend

variable {σ τ : Type}

def onPart (part : τ → σ) (put : σ → τ → τ) (backend : Backend σ) : Backend τ where
  lookup token branch specifier := (backend.lookup token branch specifier).onPart part put
  checkout token branch revision target :=
    (backend.checkout token branch revision target).onPart part put
  merge token tree branch revision message :=
    (backend.merge token tree branch revision message).onPart part put
  revno token branch revision := (backend.revno token branch revision).onPart part put

def withoutNumbers (backend : Backend σ) : Backend σ :=
  { backend with revno := fun _ _ _ => pure none }

end Backend

end SourceRecipe
