import SourceRecipe.Json.Decoding
import SourceRecipe.Json.Printing
import SourceRecipe.Settings.Basic
import SourceRecipe.Toml.Decoding
import SourceRecipe.Toml.Quoted
import SourceRecipe.Toml.Reading

/-!
# Settings as data

Settings are kept in TOML or in JSON.  Every field may be left out and then has its usual value.
-/

namespace SourceRecipe

open SourceRecipe.Text

def Json.format : DataFormat Json where
  fields? names value := (value.record? levelLimit names).map fun (_, record) => record.fields
  text? := text?
  natBelow? := natBelow?
  float? := float?
  nullable decode := nullable decode

/-- A float in JSON, which has no text for infinities and what is not a number. -/
def Json.ofFloat (x : Float) : Json :=
  if x.isNaN || x.isInf then .null else .number (Binary64.compactText x)

def Toml.floatText (x : Float) : List Char :=
  if x.isNaN then "nan".toList
  else if x.isInf then Binary64.signed x "inf".toList
  else Binary64.positionalText x

def Toml.fieldLine (name : String) (value : List Char) : List Char :=
  name.toList ++ " = ".toList ++ value ++ ['\n']

def Toml.headerLine (name : String) : List Char :=
  '\n' :: '[' :: name.toList ++ [']', '\n']

/-! ## Reading -/

section Reading

variable {ν : Type} (format : DataFormat ν)

def RetrySettings.ofData? (value : ν) : Option RetrySettings := do
  let fields ← format.fields? ["max_attempts", "initial_delay_ms", "backoff_multiplier"] value
  let usual := standard
  let attempts ← fieldOr fields "max_attempts" usual.attempts (format.natBelow? (twoTo 32))
  let firstDelay ← fieldOr fields "initial_delay_ms" usual.firstDelay
    (format.natBelow? (twoTo 64))
  let multiplier ← fieldOr fields "backoff_multiplier" usual.multiplier format.float?
  some ⟨attempts, firstDelay, multiplier⟩

def GitSettings.ofData? (value : ν) : Option GitSettings := do
  let fields ← format.fields? ["binary", "cache_dir", "committer_name", "committer_email"] value
  let usual := standard
  let program ← fieldOr fields "binary" usual.program format.text?
  let mirrors ← fieldOr fields "cache_dir" usual.mirrors (format.nullable format.text?)
  let committerName ← fieldOr fields "committer_name" usual.committerName format.text?
  let committerEmail ← fieldOr fields "committer_email" usual.committerEmail format.text?
  some ⟨program, mirrors, committerName, committerEmail⟩

def Settings.ofData? (value : ν) : Option Settings := do
  let fields ← format.fields? ["jobs", "timeout_secs", "manifest_name", "retry", "git"] value
  let usual := standard
  let jobs ← fieldOr fields "jobs" usual.jobs (format.natBelow? (twoTo 64))
  let timeout ← fieldOr fields "timeout_secs" usual.timeout
    (format.nullable (format.natBelow? (twoTo 64)))
  let manifestName ← fieldOr fields "manifest_name" usual.manifestName format.text?
  let retry ← fieldOr fields "retry" usual.retry (RetrySettings.ofData? format)
  let git ← fieldOr fields "git" usual.git (GitSettings.ofData? format)
  some ⟨jobs, timeout, manifestName, retry, git⟩

end Reading

namespace Settings

def ofJsonText? (text : List Char) : Option Settings :=
  (Json.read text).bind (ofData? Json.format)

def ofTomlText? (text : List Char) : Option Settings :=
  (Toml.read text).bind (ofData? Toml.format)

/-! ## Writing -/

def toJson (settings : Settings) : Json :=
  .ofFields [
    ("jobs", .ofNat settings.jobs),
    ("timeout_secs", settings.timeout.elim .null .ofNat),
    ("manifest_name", .ofText settings.manifestName),
    ("retry", .ofFields [
      ("max_attempts", .ofNat settings.retry.attempts),
      ("initial_delay_ms", .ofNat settings.retry.firstDelay),
      ("backoff_multiplier", .ofFloat settings.retry.multiplier)]),
    ("git", .ofFields [
      ("binary", .ofText settings.git.program),
      ("cache_dir", .ofText? settings.git.mirrors),
      ("committer_name", .ofText settings.git.committerName),
      ("committer_email", .ofText settings.git.committerEmail)])]

def jsonText (settings : Settings) : List Char :=
  settings.toJson.spreadText

/-- Settings as a TOML text.  What is absent is left out. -/
def tomlText (settings : Settings) : List Char :=
  let text (name value : String) := Toml.fieldLine name (Toml.quoted value.toList)
  let number (name : String) (n : Nat) := Toml.fieldLine name (numeral n)
  number "jobs" settings.jobs ++
    settings.timeout.elim [] (number "timeout_secs") ++
    text "manifest_name" settings.manifestName ++
    Toml.headerLine "retry" ++
    number "max_attempts" settings.retry.attempts ++
    number "initial_delay_ms" settings.retry.firstDelay ++
    Toml.fieldLine "backoff_multiplier" (Toml.floatText settings.retry.multiplier) ++
    Toml.headerLine "git" ++
    text "binary" settings.git.program ++
    settings.git.mirrors.elim [] (text "cache_dir") ++
    text "committer_name" settings.git.committerName ++
    text "committer_email" settings.git.committerEmail

end Settings

end SourceRecipe
