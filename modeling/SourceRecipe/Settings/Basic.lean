import SourceRecipe.Backend.Retry
import SourceRecipe.Build.Error

/-!
# Settings

What a user can set: how a build looks up revisions, how long it may take, where its manifest
goes, and how `git` is called.
-/

namespace SourceRecipe

/-- Attempts after failures of the network; `firstDelay` is in milliseconds. -/
structure RetrySettings where
  attempts : Nat
  firstDelay : Nat
  multiplier : Float
  deriving BEq

/-- How `git` is called.  Mirrors go to the usual place unless a directory is given. -/
structure GitSettings where
  program : String
  mirrors : Option String
  committerName : String
  committerEmail : String
  deriving BEq

/-- All settings; `timeout` is in seconds, and the manifest is named relative to the build
root. -/
structure Settings where
  jobs : Nat
  timeout : Option Nat
  manifestName : String
  retry : RetrySettings
  git : GitSettings
  deriving BEq

def RetrySettings.standard : RetrySettings := ⟨3, 2000, 2.0⟩

def GitSettings.standard : GitSettings :=
  ⟨"git", none, "recipebuild", "recipebuild@localhost"⟩

def RetrySettings.policy (settings : RetrySettings) : RetryPolicy :=
  .ofBase settings.attempts (settings.firstDelay * 1000000) settings.multiplier

namespace Settings

def standard : Settings := ⟨4, none, "recipe.manifest", .standard, .standard⟩

def flaw? (settings : Settings) : Option SettingsFlaw :=
  if settings.jobs = 0 then some .noJobs
  else if settings.retry.attempts = 0 then some .noAttempts
  else if settings.retry.multiplier < 1.0 then some .smallMultiplier
  else if !(Path.mk settings.manifestName).isPlain then
    some (.manifestName settings.manifestName)
  else none

def token (settings : Settings) (signals : Signals) : Token × Signals :=
  signals.issue (settings.timeout.map (· * Signals.second))

end Settings

end SourceRecipe
