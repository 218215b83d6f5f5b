import SourceRecipe.Cancel
import SourceRecipe.FileTree
import SourceRecipe.Notice

/-!
# Worlds

Everything that a build can see and change: what the version control system keeps, the signals
to give up and the clock, the file system, and the notices given so far.
-/

namespace SourceRecipe

/-- The surroundings of a build; `σ` is what the version control system keeps. -/
structure World (σ : Type) where
  store : σ
  signals : Signals
  files : FileTree
  notices : List Notice

namespace World

variable {σ τ : Type}

def initial (store : σ) : World σ :=
  ⟨store, .initial, .empty, []⟩

def note (level : Level) (text : String) (world : World σ) : World σ :=
  { world with notices := world.notices ++ [⟨level, text⟩] }

def hasFired (world : World σ) (token : Token) : Bool :=
  world.signals.isFired token

def fire (token : Token) (world : World σ) : World σ :=
  { world with signals := world.signals.fire token }

def pass (span : Nat) (world : World σ) : World σ :=
  { world with signals := world.signals.pass span }

def withStore (world : World σ) (store : τ) : World τ :=
  ⟨store, world.signals, world.files, world.notices⟩

def onFiles {ε α : Type} (work : FileWork ε α) : ExceptT ε (StateM (World σ)) α := fun world =>
  let (answer, files) := work world.files
  (answer, { world with files })

end World

end SourceRecipe
