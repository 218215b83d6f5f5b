import SourceRecipe.Build.Pinned
import SourceRecipe.Path

/-!
# Operations

A build is a list of operations on working trees: the root tree is checked out, branches are
merged into trees, and further trees are checked out below existing ones.
-/

namespace SourceRecipe

inductive Action where
  /-- Makes the root tree. -/
  | checkout
  /-- Merges into an existing tree.  A repeated merge is one whose branch and revision are in
  the ancestry of the tree already. -/
  | merge (nickname : String) (repeated : Bool)
  /-- Makes a tree at a place below an existing one. -/
  | nest (nickname : String) (location : String)
  deriving DecidableEq

/-- One step of a build: an action on the tree at `target`, a path below the build root. -/
structure Operation where
  action : Action
  branch : String
  revision : String
  target : Path
  depth : Nat
  deriving DecidableEq

/-- The nickname of the instruction; the root tree has none. -/
def Action.nickname? : Action → Option String
  | checkout => none
  | merge nickname _ => some nickname
  | nest nickname _ => some nickname

def Action.kindName : Action → String
  | checkout => "checkout"
  | merge _ _ => "merge"
  | nest _ _ => "nest"

def Operation.isRepeatedMerge (operation : Operation) : Bool :=
  match operation.action with
  | .merge _ repeated => repeated
  | _ => false

def Operation.text (operation : Operation) : String :=
  let what := operation.branch ++ " at " ++ shortRevision operation.revision
  match operation.action with
  | .checkout => "checkout " ++ what
  | .merge nickname repeated =>
      "merge " ++ nickname ++ " (" ++ what ++ ")" ++ (if repeated then " [no-op]" else "")
  | .nest nickname _ => "nest " ++ nickname ++ " (" ++ what ++ ") in " ++ operation.target.text

end SourceRecipe
