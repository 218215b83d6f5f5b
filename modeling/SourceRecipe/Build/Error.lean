import SourceRecipe.Build.Plan
import SourceRecipe.Recipe.File

/-!
# Why a build fails

Before the first operation a build fails for what it was asked to do; from then on it fails at
an operation, and says which one.
-/

namespace SourceRecipe

inductive VersionFlaw where
  | unknownPlaceholder (placeholder template : String)
  /-- No branch has the nickname in a placeholder. -/
  | unknownNickname (nickname template : String)
  | unnumbered (branch revision : String)
  deriving DecidableEq

def VersionFlaw.text : VersionFlaw → String
  | unknownPlaceholder placeholder template =>
      s!"unknown placeholder {placeholder} in '{template}'"
  | unknownNickname nickname template =>
      s!"no branch named '{nickname}' in the recipe for '{template}'"
  | unnumbered branch revision =>
      s!"no revision number for {shortRevision revision} in {branch}"

inductive SettingsFlaw where
  | noJobs
  | noAttempts
  /-- The pauses between attempts would get shorter. -/
  | smallMultiplier
  /-- The manifest would not be written below the build root. -/
  | manifestName (name : String)
  deriving DecidableEq

def SettingsFlaw.text : SettingsFlaw → String
  | noJobs => "jobs must be at least 1"
  | noAttempts => "retry.max_attempts must be at least 1"
  | smallMultiplier => "retry.backoff_multiplier must be at least 1.0"
  | manifestName name => s!"manifest_name '{name}' must be a relative path inside the build root"

inductive BuildError where
  | recipe (error : RecipeError)
  /-- A branch has no revision that its specifier asks for. -/
  | revisionNotFound (branch specifier : String)
  | plan (error : PlanError)
  /-- An operation left conflicts. -/
  | conflict (index : Nat) (branch : String) (paths : List Path)
  | operation (index : Nat) (branch : String) (fault : Fault)
  | lookup (branch : String) (fault : Fault)
  /-- The caller gave up while operations were under way. -/
  | stopped (lastCompleted : Option Nat)
  /-- The caller gave up before the first operation. -/
  | cancelled
  | version (flaw : VersionFlaw)
  | file (path : Path) (error : FileError)
  | settings (flaw : SettingsFlaw)
  deriving DecidableEq

namespace BuildError

def reached : Option Nat → String
  | some index => s!"after operation {index}"
  | none => "before the first operation"

def versionMessage (remark : String) : String :=
  s!"cannot expand version: {remark}"

def settingsMessage (remark : String) : String :=
  s!"configuration error: {remark}"

def message : BuildError → String
  | recipe error => error.message
  | revisionNotFound branch specifier => s!"revision {specifier} not found in {branch}"
  | plan error => s!"invalid recipe structure: {error.message}"
  | conflict index branch paths =>
      s!"operation {index}: merging {branch} conflicted in " ++ Path.listText paths
  | operation index branch fault => s!"operation {index} on {branch} failed: {fault.message}"
  | lookup branch fault => s!"looking up {branch} failed: {fault.message}"
  | stopped lastCompleted => s!"build cancelled {reached lastCompleted}"
  | cancelled => "build cancelled while resolving revisions"
  | version flaw => versionMessage flaw.text
  | file path error => s!"{path.text}: {error.text}"
  | settings flaw => settingsMessage flaw.text

end BuildError

end SourceRecipe
