import SourceRecipe.Git.Command
import SourceRecipe.Git.Location

/-!
# Mirrors

Every address is kept as a bare mirror in a cache directory.  Looking up a revision brings the
mirror up to date first; other calls are content with a mirror that was brought up to date
before.
-/

namespace SourceRecipe.Git

open SourceRecipe.Text

/-- How `git` is called: the program, the directory of the mirrors, and who commits merges. -/
structure Options where
  program : Path
  cache : Path
  committerName : String
  committerEmail : String
  deriving DecidableEq

/-- The addresses whose mirrors were brought up to date, and what the shell keeps. -/
structure Mirrors (ε : Type) where
  fetched : List String
  host : ε

def Mirrors.initial {ε : Type} (host : ε) : Mirrors ε := ⟨[], host⟩

variable {ε : Type}

def isAvailable (shell : Shell ε) (options : Options) : World ε → Bool × World ε := fun world =>
  let (answer, after) := shell none ⟨options.program, none, ["--version"], true⟩ world
  match answer with
  | .ok reply => (reply.succeeded, after)
  | .error _ => (false, after)

/-- Runs `git`, unless the token has fired. -/
def run (shell : Shell ε) (options : Options) (token : Token) (directory : Option Path)
    (arguments : List String) : Call (Mirrors ε) Reply := do
  Call.check token
  (shell (some token) ⟨options.program, directory, arguments, false⟩).onPart Mirrors.host
    fun host mirrors => { mirrors with host }

def runChecked (shell : Shell ε) (options : Options) (token : Token) (location : String)
    (directory : Option Path) (arguments : List String) : Call (Mirrors ε) Reply := do
  let reply ← run shell options token directory arguments
  if !reply.succeeded then
    throw (.ofGitOutput reply.errorText location directory)
  return reply

def fileFault (error : FileError) : Fault := .file error error.text

def mirrorPath (options : Options) (location : String) : Path :=
  options.cache.join ⟨mirrorName (address location)⟩

def makeCache (options : Options) : Call (Mirrors ε) Unit :=
  World.onFiles ((FileWork.makeDirectories options.cache).mapError fileFault)

/-- Makes the mirror of a location.  Nothing is left of a mirror that could not be made. -/
def makeMirror (shell : Shell ε) (options : Options) (token : Token) (location : String) :
    Call (Mirrors ε) Unit := do
  makeCache options
  let path := mirrorPath options location
  tryCatch
    (do
      let _ ← runChecked shell options token location none
        ["clone", "--quiet", "--mirror", address location, path.text]
      return ())
    fun fault => do
      modify fun world => { world with files := world.files.removeDirectory path }
      throw fault

def refresh (shell : Shell ε) (options : Options) (token : Token) (location : String) :
    Call (Mirrors ε) Unit := do
  let path := mirrorPath options location
  if (← get).files.has (path.join ⟨"HEAD"⟩) then
    let _ ← runChecked shell options token location (some path)
      ["fetch", "--quiet", "--prune", "--tags", "origin"]
  else
    makeMirror shell options token location
  modify fun world =>
    { world with
      store := { world.store with fetched := address location :: world.store.fetched } }

/-- The mirror of a location, brought up to date now. -/
def freshMirror (shell : Shell ε) (options : Options) (token : Token) (location : String) :
    Call (Mirrors ε) Path := do
  refresh shell options token location
  return mirrorPath options location

/-- The mirror of a location, brought up to date once. -/
def cachedMirror (shell : Shell ε) (options : Options) (token : Token) (location : String) :
    Call (Mirrors ε) Path := do
  if address location ∉ (← get).store.fetched then
    refresh shell options token location
  return mirrorPath options location

end SourceRecipe.Git
