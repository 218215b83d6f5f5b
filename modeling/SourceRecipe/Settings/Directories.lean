import SourceRecipe.Environment
import SourceRecipe.Git.Mirror
import SourceRecipe.Settings.File

/-!
# Usual directories

Where settings and mirrors are kept unless a path is given: in a directory that a variable of
the environment names, else below the directory that another one names for all programs, else
below the home directory.
-/

namespace SourceRecipe

/-- The directories with a usual path: that of the settings and that of the mirrors. -/
inductive UsualDirectory where
  | config
  | cache
  deriving DecidableEq

namespace UsualDirectory

def name : UsualDirectory → String
  | config => "config"
  | cache => "cache"

def ownVariable : UsualDirectory → String
  | config => "RECIPEBUILD_CONFIG_DIR"
  | cache => "RECIPEBUILD_CACHE_DIR"

def sharedVariable : UsualDirectory → String
  | config => "XDG_CONFIG_HOME"
  | cache => "XDG_CACHE_HOME"

def inHome : UsualDirectory → Path
  | config => ⟨".config"⟩
  | cache => ⟨".cache"⟩

end UsualDirectory

inductive DirectoryError where
  | noHome (directory : UsualDirectory)
  deriving DecidableEq

def DirectoryError.message : DirectoryError → String
  | noHome directory => s!"Could not determine {directory.name} directory"

def Environment.directory (environment : Environment) (directory : UsualDirectory) :
    Except DirectoryError Path :=
  match environment.get? directory.ownVariable with
  | some path => .ok (environment.expand path)
  | none =>
      match environment.get? directory.sharedVariable with
      | some path => .ok (Path.join ⟨path⟩ ⟨"recipebuild"⟩)
      | none =>
          match environment.home? with
          | some home => .ok ((home.join directory.inHome).join ⟨"recipebuild"⟩)
          | none => .error (.noHome directory)

def Environment.settingsPath (environment : Environment) : Except DirectoryError Path :=
  (environment.directory .config).map (·.join ⟨"config.toml"⟩)

def GitSettings.options (settings : GitSettings) (environment : Environment) :
    Except DirectoryError Git.Options := do
  let cache ←
    match settings.mirrors with
    | some path => pure (environment.expand path)
    | none => environment.directory .cache
  return ⟨environment.expand settings.program, cache, settings.committerName,
    settings.committerEmail⟩

/-- The settings in the file at a path, or the usual ones if there is no such file. -/
def Settings.loadOrStandard (files : FileTree) (path : Path) : Except SettingsError Settings :=
  if files.has path then load files path else .ok standard

end SourceRecipe
