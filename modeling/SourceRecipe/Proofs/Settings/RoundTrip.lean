import SourceRecipe.Proofs.FileTree
import SourceRecipe.Proofs.Json.Floats
import SourceRecipe.Proofs.Settings.Reading

/-!
# Settings loaded again

Settings that were saved are loaded from the file as they were, all but the multiplier.  TOML keeps
every multiplier, though one that is no number equals nothing, itself included.  JSON has no text
for such a one and none for infinities, and its reader rounds twice, so that it makes another
number of some texts, though not of those with at most fifteen digits.
-/

namespace SourceRecipe

namespace SettingsFormat

def reread? : SettingsFormat → Float → Option Float
  | json, x => Json.float? (Json.ofFloat x)
  | toml, x => some x

structure Keeps (format : SettingsFormat) (x : Float) : Prop where
  number : x.isNaN = false
  reread : format.reread? x = some x

/-- A text of settings holds them, with what is read of their multiplier. -/
theorem read?_text (format : SettingsFormat) {settings : Settings} (fits : settings.Fits) :
    format.read? (format.text settings) =
      (format.reread? settings.retry.multiplier).map settings.withMultiplier := by
  cases format with
  | json => exact Json.ofJsonText?_jsonText fits
  | toml => exact Toml.ofTomlText?_tomlText fits

/-- A multiplier with few digits is read as it was written. -/
theorem keeps_of_isShort (format : SettingsFormat) {x : Float} (short : Json.IsShort x) :
    format.Keeps x := by
  have number : x.isNaN = false := by
    rw [(Binary64.isInf_isNaN_eq x).2]
    exact decide_eq_false short.finite.le.not_gt
  cases format with
  | json => exact ⟨number, Json.float?_ofFloat short⟩
  | toml => exact ⟨number, rfl⟩

end SettingsFormat

namespace Settings

variable {settings loaded : Settings} {path : Path} {files after : FileTree}

/-- Only numbers are at least one, or below it. -/
theorem multiplier_not_lt (sound : settings.flaw? = none) : ¬ settings.retry.multiplier < 1.0 := by
  intro small
  rw [flaw?] at sound
  split at sound
  case isTrue => cases sound
  case isFalse =>
    split at sound
    all_goals cases sound

theorem withMultiplier_self : settings.withMultiplier settings.retry.multiplier = settings :=
  rfl

/-- Settings equal others with another multiplier if the multipliers are equal. -/
theorem withMultiplier_beq_iff {x : Float} :
    (settings.withMultiplier x == settings) = true ↔ (x == settings.retry.multiplier) = true := by
  have retry : ({ settings.retry with multiplier := x } == settings.retry) =
      (x == settings.retry.multiplier) := by
    change instBEqRetrySettings.beq _ _ = _
    simp [instBEqRetrySettings.beq]
  have git : (settings.git == settings.git) = true := by
    change instBEqGitSettings.beq _ _ = true
    simp [instBEqGitSettings.beq]
  change instBEqSettings.beq _ _ = true ↔ _
  simp [instBEqSettings.beq, withMultiplier, retry, git]

def checked (path : Path) : Option Settings → Except SettingsError Settings
  | none => .error (.malformed (.ofPath path) path)
  | some settings =>
      match settings.flaw? with
      | some flaw => .error (.flawed path flaw)
      | none => .ok settings

/-- What was saved is the text that is read when it is loaded. -/
theorem load_of_save (fits : settings.Fits)
    (saved : settings.save path files = (.ok (), after)) :
    load after path = checked path
      (((SettingsFormat.ofPath path).reread? settings.retry.multiplier).map
        settings.withMultiplier) := by
  simp only [save, run_bind_eq_ok_iff, FileWork.mapError_eq_ok_iff] at saved
  obtain ⟨_, between, _, written⟩ := saved
  have read := FileTree.readText_of_lookup (FileWork.writeText_eq_ok written)
  rw [← SettingsFormat.read?_text _ fits, load, read]
  simp only [Except.mapError, bind, Except.bind, String.toList_ofList]
  rfl

/-- What is loaded are the settings with a multiplier that is read and is large enough. -/
theorem load_of_save_eq_ok_iff (fits : settings.Fits)
    (saved : settings.save path files = (.ok (), after)) :
    load after path = .ok loaded ↔ ∃ x,
      (SettingsFormat.ofPath path).reread? settings.retry.multiplier = some x ∧
        settings.withMultiplier x = loaded ∧ loaded.flaw? = none := by
  rw [load_of_save fits saved]
  cases (SettingsFormat.ofPath path).reread? settings.retry.multiplier with
  | none => simp [checked]
  | some x =>
      simp only [Option.map_some, Option.some.injEq, exists_eq_left', checked]
      cases flaw : (settings.withMultiplier x).flaw? with
      | none =>
          constructor
          · intro found
            cases found
            exact ⟨rfl, flaw⟩
          · rintro ⟨rfl, _⟩
            rfl
      | some wrong =>
          constructor
          · intro found
            cases found
          · rintro ⟨rfl, sound⟩
            cases flaw.symm.trans sound

def IsLoaded (settings : Settings) (files : FileTree) (path : Path) : Prop :=
  ∃ loaded, load files path = .ok loaded ∧ (loaded == settings) = true

/-- Settings that nothing is wrong with are loaded as they were if and only if the format of the
file keeps their multiplier. -/
theorem isLoaded_iff_keeps (fits : settings.Fits) (sound : settings.flaw? = none)
    (saved : settings.save path files = (.ok (), after)) :
    settings.IsLoaded after path ↔
      (SettingsFormat.ofPath path).Keeps settings.retry.multiplier := by
  constructor
  · rintro ⟨loaded, found, same⟩
    obtain ⟨x, reread, rfl, _⟩ := (load_of_save_eq_ok_iff fits saved).mp found
    have equal := withMultiplier_beq_iff.mp same
    have kept := Binary64.eq_of_beq equal (multiplier_not_lt sound)
    rw [kept] at equal reread
    exact ⟨Binary64.beq_self_iff.mp equal, reread⟩
  · intro keeps
    refine ⟨settings, (load_of_save_eq_ok_iff fits saved).mpr ?_, ?_⟩
    · exact ⟨_, keeps.reread, withMultiplier_self, sound⟩
    · exact withMultiplier_beq_iff.mpr (Binary64.beq_self_iff.mpr keeps.number)

/-- Settings that nothing is wrong with are loaded as they were saved if and only if the format of
the file keeps their multiplier, which it does if that has few digits.  Whatever is loaded differs
in the multiplier at most, and where none is read, the file is malformed. -/
theorem load_of_save_iff_keeps (fits : settings.Fits) (sound : settings.flaw? = none)
    (saved : settings.save path files = (.ok (), after)) :
    (settings.IsLoaded after path ↔
      (SettingsFormat.ofPath path).Keeps settings.retry.multiplier) ∧
    (Json.IsShort settings.retry.multiplier → settings.IsLoaded after path) ∧
    (∀ loaded, load after path = .ok loaded → ∃ x,
      (SettingsFormat.ofPath path).reread? settings.retry.multiplier = some x ∧
        loaded = settings.withMultiplier x) ∧
    ((SettingsFormat.ofPath path).reread? settings.retry.multiplier = none →
      load after path = .error (.malformed (.ofPath path) path)) := by
  have kept := isLoaded_iff_keeps fits sound saved
  refine ⟨kept, fun short => ?_, fun loaded found => ?_, fun nothing => ?_⟩
  · exact kept.mpr (SettingsFormat.keeps_of_isShort _ short)
  · obtain ⟨x, reread, same, _⟩ := (load_of_save_eq_ok_iff fits saved).mp found
    exact ⟨x, reread, same.symm⟩
  · rw [load_of_save fits saved, nothing]
    rfl

theorem fits_standard : standard.Fits :=
  ⟨by decide, by simp [standard], by decide, by decide⟩

theorem Fits.withMultiplier (fits : settings.Fits) (x : Float) :
    (settings.withMultiplier x).Fits :=
  ⟨fits.jobs, fits.timeout, fits.attempts, fits.firstDelay⟩

/-- The usual settings are loaded from JSON as they were. -/
theorem load_of_save_iff_keeps_standard :
    standard.Fits ∧ standard.flaw? = none ∧
      (standard.save ⟨"config.json"⟩ .empty).1 = .ok () ∧
      standard.IsLoaded (standard.save ⟨"config.json"⟩ .empty).2 ⟨"config.json"⟩ := by
  have sound : standard.flaw? = none := by decide +kernel
  have saved : (standard.save ⟨"config.json"⟩ .empty).1 = .ok () := rfl
  have short : Json.IsShort standard.retry.multiplier :=
    ⟨⟨by decide +kernel, by decide +kernel, by decide +kernel⟩, by decide +kernel,
      by decide +kernel, by decide +kernel⟩
  exact ⟨fits_standard, sound, saved,
    (load_of_save_iff_keeps fits_standard sound (Prod.ext saved rfl)).2.1 short⟩

/-- What is not a number is lost in TOML, infinity in JSON, where no settings are loaded at all, and
so is `2 ^ 53 - 1`, of which JSON makes `2 ^ 53 - 2`. -/
theorem not_isLoaded_of_save :
    ((standard.withMultiplier (0.0 / 0.0)).flaw? = none ∧
      ((standard.withMultiplier (0.0 / 0.0)).save ⟨"config.toml"⟩ .empty).1 = .ok () ∧
      ¬ (standard.withMultiplier (0.0 / 0.0)).IsLoaded
        ((standard.withMultiplier (0.0 / 0.0)).save ⟨"config.toml"⟩ .empty).2 ⟨"config.toml"⟩) ∧
    ((standard.withMultiplier (1.0 / 0.0)).flaw? = none ∧
      ((standard.withMultiplier (1.0 / 0.0)).save ⟨"config.json"⟩ .empty).1 = .ok () ∧
      ¬ (standard.withMultiplier (1.0 / 0.0)).IsLoaded
        ((standard.withMultiplier (1.0 / 0.0)).save ⟨"config.json"⟩ .empty).2 ⟨"config.json"⟩) ∧
    ((standard.withMultiplier 9007199254740991.0).flaw? = none ∧
      ((standard.withMultiplier 9007199254740991.0).save ⟨"config.json"⟩ .empty).1 = .ok () ∧
      ¬ (standard.withMultiplier 9007199254740991.0).IsLoaded
        ((standard.withMultiplier 9007199254740991.0).save ⟨"config.json"⟩ .empty).2
          ⟨"config.json"⟩) := by
  have lost {x : Float} {path : Path} (sound : (standard.withMultiplier x).flaw? = none)
      (saved : ((standard.withMultiplier x).save path .empty).1 = .ok ())
      (changed : ¬ (x.isNaN = false ∧ (SettingsFormat.ofPath path).reread? x = some x)) :
      (standard.withMultiplier x).flaw? = none ∧
        ((standard.withMultiplier x).save path .empty).1 = .ok () ∧
        ¬ (standard.withMultiplier x).IsLoaded ((standard.withMultiplier x).save path .empty).2
          path := by
    refine ⟨sound, saved, ?_⟩
    rw [isLoaded_iff_keeps (fits_standard.withMultiplier x) sound (Prod.ext saved rfl)]
    exact fun keeps => changed ⟨keeps.number, keeps.reread⟩
  refine ⟨lost ?_ rfl ?_, lost ?_ rfl ?_, lost ?_ rfl ?_⟩
  all_goals decide +kernel

end Settings

end SourceRecipe
