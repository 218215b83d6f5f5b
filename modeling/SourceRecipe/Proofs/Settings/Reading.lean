import SourceRecipe.Proofs.Json.Structures
import SourceRecipe.Proofs.Toml.Tables
import SourceRecipe.Settings.File

/-!
# Settings read back

A text of settings holds their fields, in TOML as lines and tables and in JSON as an object.  What
is read from it are the settings it was written for, if their numbers are below the bounds of their
readers; only the multiplier may be another one, as JSON has no text for every float.
-/

namespace SourceRecipe

open SourceRecipe.Text SourceRecipe.Binary64

/-- Whether the numbers in settings are below the bounds that their readers have. -/
structure Settings.Fits (settings : Settings) : Prop where
  jobs : settings.jobs < twoTo 64
  timeout : ∀ seconds ∈ settings.timeout, seconds < twoTo 64
  attempts : settings.retry.attempts < twoTo 32
  firstDelay : settings.retry.firstDelay < twoTo 64

def Settings.withMultiplier (settings : Settings) (x : Float) : Settings :=
  { settings with retry := { settings.retry with multiplier := x } }

/-! ## Fields -/

section Fields

variable {ν α : Type} {fields : List (String × ν)} {name other : String} {value : ν} {default : α}
  {decode : ν → Option α}

@[simp]
theorem fieldOr_nil : fieldOr [] name default decode = some default :=
  rfl

@[simp]
theorem fieldOr_cons_self :
    fieldOr ((name, value) :: fields) name default decode = decode value := by
  rw [fieldOr, List.lookup_cons_self]

@[simp]
theorem fieldOr_cons_of_ne (differs : name ≠ other) :
    fieldOr ((other, value) :: fields) name default decode =
      fieldOr fields name default decode := by
  rw [fieldOr, List.lookup_cons, beq_false_of_ne differs]
  rfl

end Fields

section Data

variable {ν : Type} {format : DataFormat ν} {value : ν} {fields : List (String × ν)}

/-- Settings for attempts are read when their fields are. -/
theorem RetrySettings.ofData?_eq (settings : RetrySettings)
    (whole : format.fields? ["max_attempts", "initial_delay_ms", "backoff_multiplier"] value =
      some fields)
    (attempts : fieldOr fields "max_attempts" standard.attempts (format.natBelow? (twoTo 32)) =
      some settings.attempts)
    (firstDelay : fieldOr fields "initial_delay_ms" standard.firstDelay
      (format.natBelow? (twoTo 64)) = some settings.firstDelay) :
    ofData? format value =
      (fieldOr fields "backoff_multiplier" standard.multiplier format.float?).map
        fun x => { settings with multiplier := x } := by
  rw [ofData?, whole]
  simp only [Option.bind_eq_bind, Option.bind_some]
  rw [attempts, firstDelay]
  cases fieldOr fields "backoff_multiplier" standard.multiplier format.float? <;> rfl

/-- Settings for `git` are read when their fields are. -/
theorem GitSettings.ofData?_eq (settings : GitSettings)
    (whole : format.fields? ["binary", "cache_dir", "committer_name", "committer_email"] value =
      some fields)
    (program : fieldOr fields "binary" standard.program format.text? = some settings.program)
    (mirrors : fieldOr fields "cache_dir" standard.mirrors (format.nullable format.text?) =
      some settings.mirrors)
    (name : fieldOr fields "committer_name" standard.committerName format.text? =
      some settings.committerName)
    (email : fieldOr fields "committer_email" standard.committerEmail format.text? =
      some settings.committerEmail) : ofData? format value = some settings := by
  rw [ofData?, whole]
  simp only [Option.bind_eq_bind, Option.bind_some]
  rw [program, mirrors, name, email]
  rfl

/-- Settings are read when their fields are. -/
theorem Settings.ofData?_eq (settings : Settings) (reread : Option Float)
    (whole : format.fields? ["jobs", "timeout_secs", "manifest_name", "retry", "git"] value =
      some fields)
    (jobs : fieldOr fields "jobs" standard.jobs (format.natBelow? (twoTo 64)) =
      some settings.jobs)
    (timeout : fieldOr fields "timeout_secs" standard.timeout
      (format.nullable (format.natBelow? (twoTo 64))) = some settings.timeout)
    (manifestName : fieldOr fields "manifest_name" standard.manifestName format.text? =
      some settings.manifestName)
    (retry : fieldOr fields "retry" standard.retry (RetrySettings.ofData? format) =
      reread.map fun x => { settings.retry with multiplier := x })
    (git : fieldOr fields "git" standard.git (GitSettings.ofData? format) = some settings.git) :
    ofData? format value = reread.map settings.withMultiplier := by
  rw [ofData?, whole]
  simp only [Option.bind_eq_bind, Option.bind_some]
  rw [jobs, timeout, manifestName, retry, git]
  cases reread <;> rfl

end Data

/-! ## TOML -/

namespace Toml

def ofRetry (settings : RetrySettings) : List (String × Toml) :=
  [("max_attempts", .integer settings.attempts),
    ("initial_delay_ms", .integer settings.firstDelay),
    ("backoff_multiplier", .float settings.multiplier)]

def ofGit (settings : GitSettings) : List (String × Toml) :=
  ("binary", .string settings.program) ::
    (settings.mirrors.elim [] fun path => [("cache_dir", .string path)]) ++
    [("committer_name", .string settings.committerName),
      ("committer_email", .string settings.committerEmail)]

def ofSettings (settings : Settings) : List (String × Toml) :=
  ("jobs", .integer settings.jobs) ::
    (settings.timeout.elim [] fun seconds => [("timeout_secs", .integer seconds)]) ++
    [("manifest_name", .string settings.manifestName)]

def tablesOf (settings : Settings) : List (String × List (String × Toml)) :=
  [("retry", ofRetry settings.retry), ("git", ofGit settings.git)]

/-- The names in a document of settings need no quotes. -/
theorem isBareName_of_mem : ∀ name ∈ ["jobs", "timeout_secs", "manifest_name", "retry",
    "max_attempts", "initial_delay_ms", "backoff_multiplier", "git", "binary", "cache_dir",
    "committer_name", "committer_email"], IsBareName name := by
  simp [IsBareName, isNameChar]

variable {settings : Settings}

/-- A document of settings is read as its lines. -/
theorem spellsLines_tomlText (fits : settings.Fits) :
    SpellsLines settings.tomlText
      (fieldLines (ofSettings settings) ++ tableLines (tablesOf settings)) := by
  have bare := isBareName_of_mem
  simp only [List.forall_mem_cons] at bare
  obtain ⟨jobsName, timeoutName, manifestName, retryName, attemptsName, delayName, multiplierName,
    gitName, programName, mirrorsName, committerName, emailName, _⟩ := bare
  have small {n : ℕ} (below : n < twoTo 64) : n < twoTo 128 := below.trans (by decide)
  have timeout (seconds : ℕ) (present : seconds ∈ settings.timeout) :=
    isValueText_numeral (small (fits.timeout seconds present))
  have text (text : String) := isValueText_quoted text
  have git := (((spellsLines_nil.field emailName (text settings.git.committerEmail)).field
    committerName (text settings.git.committerName)).optional
    mirrorsName fun path (_ : path ∈ settings.git.mirrors) => text path).field
    programName (text settings.git.program)
  have retry := (((git.header gitName).field
    multiplierName (isValueText_floatText settings.retry.multiplier)).field
    delayName (isValueText_numeral (small fits.firstDelay))).field
    attemptsName (isValueText_numeral (fits.attempts.trans (by decide)))
  have whole := (((retry.header retryName).field
    manifestName (text settings.manifestName)).optional timeoutName timeout).field
    jobsName (isValueText_numeral (small fits.jobs))
  rw [Settings.tomlText]
  simp only [List.append_assoc]
  rw [List.append_nil] at whole
  convert whole using 1
  simp [fieldLines, tableLines, ofSettings, tablesOf, ofRetry, ofGit]

/-- A document of settings holds their fields and tables. -/
theorem read_tomlText (fits : settings.Fits) :
    read settings.tomlText =
      some (.table .header (ofSettings settings ++ headed (tablesOf settings))) := by
  apply read_of_spellsLines (spellsLines_tomlText fits)
  · simp [Settings.tomlText, fieldLine]
  · rw [ofSettings, tablesOf]
    cases settings.timeout <;> simp [names]
  · rw [tablesOf, ofRetry, ofGit]
    cases settings.git.mirrors <;> simp [names]

@[simp]
theorem format_text?_string (text : String) : format.text? (.string text) = some text :=
  rfl

@[simp]
theorem format_nullable {α : Type} (decode : Toml → Option α) (value : Toml) :
    format.nullable decode value = (decode value).map some :=
  rfl

theorem format_natBelow?_natCast {bound n : ℕ} (below : n < bound) :
    format.natBelow? bound (.integer n) = some n := by
  change natBelow? bound (.integer n) = some n
  rw [natBelow?, if_pos (by omega), Int.toNat_natCast]

theorem ofData?_ofRetry (settings : RetrySettings) (attempts : settings.attempts < twoTo 32)
    (firstDelay : settings.firstDelay < twoTo 64) :
    RetrySettings.ofData? format (.table .header (ofRetry settings)) = some settings := by
  rw [RetrySettings.ofData?_eq settings (fields?_table (by simp [names, ofRetry]))]
  · simp [ofRetry, format, float?]
  · simpa [ofRetry] using format_natBelow?_natCast attempts
  · simpa [ofRetry] using format_natBelow?_natCast firstDelay

theorem ofData?_ofGit (settings : GitSettings) :
    GitSettings.ofData? format (.table .header (ofGit settings)) = some settings := by
  obtain ⟨program, mirrors, committerName, committerEmail⟩ := settings
  apply GitSettings.ofData?_eq _ (fields?_table _)
  all_goals cases mirrors <;> simp [ofGit, names, GitSettings.standard]

/-- The settings in a document are the ones it was written for. -/
theorem ofTomlText?_tomlText (fits : settings.Fits) :
    Settings.ofTomlText? settings.tomlText = some settings := by
  rw [Settings.ofTomlText?, read_tomlText fits, Option.bind_some,
    Settings.ofData?_eq settings (some settings.retry.multiplier) (fields?_table _)]
  · rfl
  · simpa [ofSettings] using format_natBelow?_natCast fits.jobs
  · cases timeout : settings.timeout with
    | none => simp [ofSettings, headed, tablesOf, timeout, Settings.standard]
    | some seconds =>
        simpa [ofSettings, timeout] using format_natBelow?_natCast (fits.timeout seconds timeout)
  · cases timeout : settings.timeout <;> simp [ofSettings, timeout]
  · cases timeout : settings.timeout <;>
      simp [ofSettings, headed, tablesOf, timeout, ofData?_ofRetry _ fits.attempts fits.firstDelay]
  · cases timeout : settings.timeout <;>
      simp [ofSettings, headed, tablesOf, timeout, ofData?_ofGit]
  · cases timeout : settings.timeout <;> simp [names, ofSettings, headed, tablesOf, timeout]

end Toml

/-! ## JSON -/

namespace Json

/-! ### Structures -/

theorem fields?_ofFields {fields : List (String × Json)} {known : List String}
    (named : ∀ field ∈ fields, field.1 ∈ known) (distinct : (fields.map Prod.fst).Nodup) :
    format.fields? known (ofFields fields) = some fields := by
  have enters : enter? levelLimit = some (levelLimit - 1) := rfl
  change ((ofFields fields).record? levelLimit known).map _ = _
  rw [record?_ofFields enters named distinct]
  rfl

/-! ### Settings -/

def ofRetry (settings : RetrySettings) : List (String × Json) :=
  [("max_attempts", .ofNat settings.attempts),
    ("initial_delay_ms", .ofNat settings.firstDelay),
    ("backoff_multiplier", .ofFloat settings.multiplier)]

def ofGit (settings : GitSettings) : List (String × Json) :=
  [("binary", .ofText settings.program),
    ("cache_dir", .ofText? settings.mirrors),
    ("committer_name", .ofText settings.committerName),
    ("committer_email", .ofText settings.committerEmail)]

def ofSettings (settings : Settings) : List (String × Json) :=
  [("jobs", .ofNat settings.jobs),
    ("timeout_secs", settings.timeout.elim .null .ofNat),
    ("manifest_name", .ofText settings.manifestName),
    ("retry", .ofFields (ofRetry settings.retry)),
    ("git", .ofFields (ofGit settings.git))]

theorem toJson_eq (settings : Settings) : settings.toJson = .ofFields (ofSettings settings) :=
  rfl

theorem isWritable_toJson (settings : Settings) : IsWritable settings.toJson := by
  have timeout : IsWritable (settings.timeout.elim null ofNat) := by
    cases settings.timeout with
    | none => exact isWritable_null
    | some seconds => exact isWritable_ofNat seconds
  have retry : IsWritable (ofFields (ofRetry settings.retry)) := by
    apply isWritable_ofFields
    simp [ofRetry, isWritable_ofNat, isWritable_ofFloat]
  have git : IsWritable (ofFields (ofGit settings.git)) := by
    apply isWritable_ofFields
    simp [ofGit, isWritable_ofText, isWritable_ofText?]
  rw [toJson_eq]
  apply isWritable_ofFields
  simp [ofSettings, timeout, retry, git, isWritable_ofNat, isWritable_ofText]

@[simp]
theorem format_text?_ofText (text : String) : format.text? (ofText text) = some text :=
  rfl

@[simp]
theorem format_nullable_null {α : Type} (decode : Json → Option α) :
    format.nullable decode null = some none :=
  rfl

@[simp]
theorem format_nullable_ofNat {α : Type} (decode : Json → Option α) (n : ℕ) :
    format.nullable decode (ofNat n) = (decode (ofNat n)).map some :=
  rfl

@[simp]
theorem format_nullable_ofText? (text : Option String) :
    format.nullable format.text? (ofText? text) = some text := by
  cases text <;> rfl

theorem format_natBelow?_ofNat {bound n : ℕ} (below : n < bound) :
    format.natBelow? bound (ofNat n) = some n :=
  natBelow?_ofNat below

theorem ofData?_ofRetry (settings : RetrySettings) (attempts : settings.attempts < twoTo 32)
    (firstDelay : settings.firstDelay < twoTo 64) :
    RetrySettings.ofData? format (ofFields (ofRetry settings)) =
      (float? (ofFloat settings.multiplier)).map fun x => { settings with multiplier := x } := by
  rw [RetrySettings.ofData?_eq settings
    (fields?_ofFields (by simp [ofRetry]) (by simp [ofRetry]))]
  · simp [ofRetry, format]
  · simpa [ofRetry] using format_natBelow?_ofNat attempts
  · simpa [ofRetry] using format_natBelow?_ofNat firstDelay

theorem ofData?_ofGit (settings : GitSettings) :
    GitSettings.ofData? format (ofFields (ofGit settings)) = some settings := by
  apply GitSettings.ofData?_eq settings (fields?_ofFields _ _)
  all_goals simp [ofGit]

/-- The settings in an object are the ones it was written for, with what is read of their
multiplier. -/
theorem ofJsonText?_jsonText {settings : Settings} (fits : settings.Fits) :
    Settings.ofJsonText? settings.jsonText =
      (float? (ofFloat settings.retry.multiplier)).map settings.withMultiplier := by
  have read := read_textAt spread_isLoose 0 (isWritable_toJson settings)
  rw [Settings.ofJsonText?, Settings.jsonText, spreadText, read, Option.bind_some, toJson_eq]
  apply Settings.ofData?_eq settings _ (fields?_ofFields _ _)
  · simpa [ofSettings] using format_natBelow?_ofNat fits.jobs
  · cases timeout : settings.timeout with
    | none => simp [ofSettings, timeout]
    | some seconds =>
        simp [ofSettings, timeout, format_natBelow?_ofNat (fits.timeout seconds timeout)]
  · simp [ofSettings]
  · simp [ofSettings, ofData?_ofRetry _ fits.attempts fits.firstDelay]
  · simp [ofSettings, ofData?_ofGit]
  · simp [ofSettings]
  · simp [ofSettings]

end Json

end SourceRecipe
