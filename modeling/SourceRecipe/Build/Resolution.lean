import SourceRecipe.Backend.Basic
import SourceRecipe.Build.Error

/-!
# Resolution

The branches of a recipe are pinned by looking up each distinct one that is not known yet, in
the order of recipe text.  After the first failure no further look-up begins, and then nothing
is remembered and no tree is pinned.
-/

namespace SourceRecipe

/-- A step of a build: an answer, or the error it ends with, and the world after it. -/
abbrev Build (σ α : Type) := ExceptT BuildError (StateM (World σ)) α

/-- A call as a step of a build that goes on whatever the call answers. -/
def Call.attempt {σ α : Type} (call : Call σ α) : Build σ (Except Fault α) := fun world =>
  let (answer, after) := call world
  (.ok answer, after)

abbrev Revisions := Dict Source String

namespace Resolution

variable {σ α : Type}

/-- The branches of a list that are not known, each once. -/
def unknown (known : Revisions) (seen : List Source) : List Source → List Source
  | [] => []
  | source :: others =>
      if (known.get? source).isSome ∨ source ∈ seen then unknown known seen others
      else source :: unknown known (source :: seen) others

def pending (known : Revisions) (tree : Tree Source) : List Source :=
  unknown known [] tree.branches

def errorOf (source : Source) : Fault → BuildError
  | .revisionNotFound _ _ => .revisionNotFound source.location source.specifier.text
  | .cancelled => .cancelled
  | fault => .lookup source.location fault

/-- What came of a look-up; none when it did not take place. -/
abbrev Outcome (α : Type) := Option (Except BuildError α)

def Outcome.error? : Outcome α → Option BuildError
  | some (.error error) => some error
  | _ => none

def Outcome.value? : Outcome α → Option α
  | some (.ok value) => some value
  | _ => none

/-- What some look-ups give together: the first failure, or all answers.  Some are left out
only after another one failed. -/
def combine (outcomes : List (Outcome α)) : Except BuildError (List α) :=
  match outcomes.findSome? Outcome.error? with
  | some error => .error error
  | none =>
      if outcomes.any Option.isNone then .error .cancelled
      else .ok (outcomes.filterMap Outcome.value?)

def lookup (backend : Backend σ) (token : Token) (source : Source) :
    StateM (World σ) (Except BuildError String) := fun world =>
  let (answer, after) := backend.lookup token source.location source.specifier world
  (answer.mapError (errorOf source), after)

/-- Looks up branches one after the other, none after a failure. -/
def lookupAll (backend : Backend σ) (token : Token) (failed : Bool) :
    List Source → StateM (World σ) (List (Outcome String))
  | [] => pure []
  | source :: others => do
      if failed then
        return none :: (← lookupAll backend token failed others)
      else
        let outcome ← lookup backend token source
        return some outcome :: (← lookupAll backend token (!outcome.isOk) others)

def foundText (source : Source) (revision : String) : String :=
  s!"{source.location} {source.specifier.text} -> {shortRevision revision}"

def remember (known : Revisions) : List (Source × String) → Revisions
  | [] => known
  | (source, revision) :: others => remember (known.put source revision) others

def pin (known : Revisions) (source : Source) : Except BuildError Pinned :=
  match known.get? source with
  | some revision => .ok ⟨source, revision⟩
  | none => .error (.revisionNotFound source.location source.specifier.text)

def pinBlock (known : Revisions) :
    Instructions Source → Except BuildError (Instructions Pinned)
  | .done => .ok .done
  | .step nickname directive branch inner later => do
      let branch ← pin known branch
      let inner ← pinBlock known inner
      let later ← pinBlock known later
      return .step nickname directive branch inner later

def pinTree (known : Revisions) (tree : Tree Source) : Except BuildError (Tree Pinned) := do
  let base ← pin known tree.base
  let instructions ← pinBlock known tree.instructions
  return ⟨base, instructions⟩

/-- Pins a tree by some way of looking up the branches that are not known.  Gives the pinned tree,
or why there is none, and the revisions known afterwards. -/
def resolveBy (look : List Source → StateM (World σ) (List (Outcome String)))
    (known : Revisions) (tree : Tree Source) :
    StateM (World σ) (Except BuildError (Tree Pinned) × Revisions) := do
  let asked := pending known tree
  match combine (← look asked) with
  | .error error => return (.error error, known)
  | .ok revisions =>
      let found := asked.zip revisions
      modify fun world => found.foldl (fun w (s, r) => w.note .info (foundText s r)) world
      let known := remember known found
      return (pinTree known tree, known)

def resolve (backend : Backend σ) (token : Token) (known : Revisions) (tree : Tree Source) :
    StateM (World σ) (Except BuildError (Tree Pinned) × Revisions) :=
  resolveBy (lookupAll backend token false) known tree

end Resolution

end SourceRecipe
