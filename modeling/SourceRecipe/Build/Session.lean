import SourceRecipe.Build.ManifestFile
import SourceRecipe.Build.Numbering
import SourceRecipe.Build.Run
import SourceRecipe.Build.Workers
import SourceRecipe.Settings.Basic

/-!
# Sessions

A session builds one recipe into one target directory: it pins the recipe with the workers that
the settings ask for, stops there if an earlier manifest pins the same revisions, works out the
version, plans, runs the plan and writes the manifest.
-/

namespace SourceRecipe

open SourceRecipe.Time

structure BuildOptions where
  /-- The manifest of an earlier build; the build stops when nothing has changed since. -/
  earlier : Option Path
  /-- Where the manifest goes instead of its usual place below the target. -/
  manifest : Option Path
  /-- The token to look at instead of one with the timeout set. -/
  token : Option Token
  /-- The start of the build. -/
  start : Instant

inductive BuildOutcome where
  | built (manifest : Manifest) (path : Path)
  /-- An earlier manifest pins the same revisions. -/
  | unchanged
  deriving DecidableEq

namespace Session

variable {σ : Type}

def pinsSame (recipe : Recipe) (pinned : Tree Pinned) : Bool :=
  recipe.tree.sameShape pinned.exactly && recipe.tree.sameRevisions pinned.exactly

/-- Whether the manifest at a path pins the same revisions.  A missing manifest does not. -/
def unchangedSince (earlier : Path) (pinned : Tree Pinned) : Build σ Bool := do
  let files := (← get).files
  if !files.has earlier then return false
  match Recipe.load files earlier with
  | .error error => throw (.recipe error)
  | .ok recipe => return pinsSame recipe pinned

/-- Whether the manifest given by the options, if there is one, pins the same revisions. -/
def stopsEarly (options : BuildOptions) (pinned : Tree Pinned) : Build σ Bool :=
  match options.earlier with
  | none => return false
  | some earlier => do
      let same ← unchangedSince earlier pinned
      if same then
        modify (World.note .info s!"Every branch matches {earlier.text}, not building")
      return same

def chooseToken (settings : Settings) (options : BuildOptions) : Build σ Token :=
  match options.token with
  | some token => return token
  | none => do
      let world ← get
      let (token, signals) := settings.token world.signals
      set { world with signals }
      return token

def versionOf (backend : Backend σ) (token : Token) (pinned : Tree Pinned) :
    Option (List Char) → Build σ (Option String)
  | none => return none
  | some template => do
      let version := String.ofList (← Numbering.expand backend token pinned template)
      modify (World.note .info s!"Version {version}")
      return some version

def manifestPath (settings : Settings) (options : BuildOptions) (target : Path) : Path :=
  options.manifest.getD (target.join ⟨settings.manifestName⟩)

def writeManifest (path : Path) (manifest : Manifest) : Build σ Unit :=
  World.onFiles ((manifest.save path).mapError (.file path))

/-- The pinned tree of a recipe, nothing being known before and its branches being looked up by a
number of workers. -/
def pinnedWith (pool : Pool) (workers : Nat) (backend : Backend σ) (token : Token)
    (recipe : Recipe) : Build σ (Tree Pinned) := fun world =>
  let ((answer, _), after) :=
    Resolution.resolveWith backend token workers pool .empty recipe.tree world
  (answer, after)

/-- What a session comes to before it carries anything out: the version and the plan, or nothing
where an earlier manifest pins the same revisions. -/
def prepare (pool : Pool) (backend : Backend σ) (settings : Settings) (options : BuildOptions)
    (recipe : Recipe) (token : Token) : Build σ (Option (Option String × List Operation)) := do
  let tree ← pinnedWith pool settings.jobs backend token recipe
  if ← stopsEarly options tree then return none
  let version ← versionOf backend token tree
    (recipe.header.version.map fun text => Version.substituteTime options.start text.toList)
  match Plan.ofTree tree with
  | .error error => throw (.plan error)
  | .ok operations => return some (version, operations)

/-- What follows when a session is prepared: the plan is carried out and the manifest written. -/
def complete (backend : Backend σ) (settings : Settings) (options : BuildOptions)
    (observer : Observer σ) (target : Path) (token : Token) :
    Option (Option String × List Operation) → Build σ BuildOutcome
  | none => return .unchanged
  | some (version, operations) => do
      let manifest ← Run.run backend token target observer version operations
      let path := manifestPath settings options target
      writeManifest path manifest
      return .built manifest path

/-- Builds a recipe into a target directory, with as many workers of a pool as the settings say. -/
def buildWith (pool : Pool) (backend : Backend σ) (settings : Settings) (options : BuildOptions)
    (observer : Observer σ) (recipe : Recipe) (target : Path) : Build σ BuildOutcome := do
  if let some flaw := settings.flaw? then throw (.settings flaw)
  let token ← chooseToken settings options
  let prepared ← prepare pool backend settings options recipe token
  complete backend settings options observer target token prepared

/-- A build whose workers take turns. -/
def build (backend : Backend σ) (settings : Settings) (options : BuildOptions)
    (observer : Observer σ) (recipe : Recipe) (target : Path) : Build σ BuildOutcome :=
  buildWith .inTurn backend settings options observer recipe target

/-- Builds the recipe in a file into a target directory.  Notices tell of the progress. -/
def buildFile (pool : Pool) (backend : Backend σ) (settings : Settings) (options : BuildOptions)
    (file target : Path) : Build σ BuildOutcome := do
  match Recipe.load (← get).files file with
  | .error error => throw (.recipe error)
  | .ok recipe => buildWith pool backend settings options .noting recipe target

end Session

end SourceRecipe
