import SourceRecipe.Build.Manifest
import SourceRecipe.Build.Progress
import SourceRecipe.Build.Resolution

/-!
# Running a plan

The operations of a plan are carried out one after the other below a build root.  The first
failure ends the run; what was done by then stays.
-/

namespace SourceRecipe

namespace Run

variable {σ : Type}

def treePath (root target : Path) : Path :=
  if target.text.isEmpty then root else root.join target

def mergeMessage (nickname : String) : String := s!"Merge {nickname}"

/-- Carries out an operation, and says whether there was nothing to do. -/
def apply (backend : Backend σ) (token : Token) (root : Path) (operation : Operation) :
    Call σ Bool := do
  let tree := treePath root operation.target
  match operation.action with
  | .merge _ true => return true
  | .merge nickname false =>
      let outcome ← backend.merge token tree operation.branch operation.revision
        (mergeMessage nickname)
      return outcome = .upToDate
  | _ =>
      backend.checkout token operation.branch operation.revision tree
      return false

def before? : Nat → Option Nat
  | 0 => none
  | index + 1 => some index

def errorOf (index : Nat) (operation : Operation) : Fault → BuildError
  | .conflict _ paths => .conflict index operation.branch paths
  | .cancelled => .stopped (before? index)
  | fault => .operation index operation.branch fault

def noteFault (operation : Operation) (fault : Fault) (world : World σ) : World σ :=
  match fault with
  | .conflict _ paths =>
      world.note .error s!"Merging {operation.branch} conflicted in {paths.length} path(s)"
  | _ => world

/-- Carries out the operations from number `index` on, out of `total`. -/
def runFrom (backend : Backend σ) (token : Token) (root : Path) (observer : Observer σ)
    (total index : Nat) : List Operation → Build σ (List ManifestEntry)
  | [] => pure []
  | operation :: others => do
      if (← get).hasFired token then
        modify (World.note .warning s!"Build cancelled before operation {index}")
        throw (.stopped (before? index))
      modify (observer (.starting index total operation))
      match ← (apply backend token root operation).attempt with
      | .error fault =>
          modify (noteFault operation fault)
          throw (errorOf index operation fault)
      | .ok unchanged =>
          modify (observer (.completed index total operation unchanged))
          let entries ← runFrom backend token root observer total (index + 1) others
          return .ofOperation operation unchanged :: entries

def run (backend : Backend σ) (token : Token) (root : Path) (observer : Observer σ)
    (version : Option String) (operations : List Operation) : Build σ Manifest := do
  modify (observer (.began operations.length))
  let entries ← runFrom backend token root observer operations.length 0 operations
  modify (observer .finished)
  return ⟨version, entries⟩

end Run

end SourceRecipe
