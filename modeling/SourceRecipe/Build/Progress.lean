import SourceRecipe.Build.Operation
import SourceRecipe.World

/-!
# Progress of a build

A build tells an observer when it begins, before and after each operation, and when it is done.
-/

namespace SourceRecipe

/-- What an observer is told; `total` is the number of operations. -/
inductive Progress where
  | began (total : Nat)
  | starting (index total : Nat) (operation : Operation)
  /-- An operation is done; it may have found nothing to do. -/
  | completed (index total : Nat) (operation : Operation) (unchanged : Bool)
  | finished
  deriving DecidableEq

namespace Progress

def position (index total : Nat) : String :=
  s!"[{index + 1}/{total}] "

def text? : Progress → Option String
  | began total => some s!"Building {total} operation(s)"
  | starting index total operation => some (position index total ++ operation.text)
  | completed index total operation unchanged =>
      if unchanged then some (position index total ++ operation.text ++ ": nothing to do")
      else none
  | finished => some "Build complete"

end Progress

abbrev Observer (σ : Type) := Progress → World σ → World σ

namespace Observer

variable {σ : Type}

def silent : Observer σ := fun _ world => world

def noting : Observer σ := fun event world =>
  match event.text? with
  | some text => world.note .info text
  | none => world

end Observer

end SourceRecipe
