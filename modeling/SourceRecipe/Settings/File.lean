import SourceRecipe.Settings.Data

/-!
# Settings in files

A file with the extension `json` holds JSON, and any other one TOML.
-/

namespace SourceRecipe

inductive SettingsFormat where
  | json
  | toml
  deriving DecidableEq

namespace SettingsFormat

def ofPath (path : Path) : SettingsFormat :=
  if path.extension? = some "json" then json else toml

def name : SettingsFormat → String
  | json => "JSON"
  | toml => "TOML"

def read? : SettingsFormat → List Char → Option Settings
  | json => Settings.ofJsonText?
  | toml => Settings.ofTomlText?

def text : SettingsFormat → Settings → List Char
  | json => Settings.jsonText
  | toml => Settings.tomlText

end SettingsFormat

inductive SettingsError where
  | unreadable (path : Path) (error : FileError)
  | malformed (format : SettingsFormat) (path : Path)
  | flawed (path : Path) (flaw : SettingsFlaw)
  /-- The directories around a file could not be made. -/
  | noParents (error : FileError)
  | unwritable (path : Path) (error : FileError)

/-- The message of an error, if the operating system does not word it alone. -/
def SettingsError.message? : SettingsError → Option String
  | unreadable path _ => some s!"Could not read {path.text}"
  | malformed format path => some s!"Invalid {format.name} in {path.text}"
  | flawed path _ => some s!"Invalid config in {path.text}"
  | noParents _ => none
  | unwritable path _ => some s!"Could not write {path.text}"

namespace Settings

def load (files : FileTree) (path : Path) : Except SettingsError Settings := do
  let format := SettingsFormat.ofPath path
  let text ← (files.readText path).mapError (.unreadable path)
  match format.read? text.toList with
  | none => .error (.malformed format path)
  | some settings =>
      match settings.flaw? with
      | some flaw => .error (.flawed path flaw)
      | none => .ok settings

def save (settings : Settings) (path : Path) : FileWork SettingsError Unit := do
  (FileWork.makeParents path).mapError .noParents
  let text := (SettingsFormat.ofPath path).text settings
  (FileWork.writeText path (String.ofList text)).mapError (.unwritable path)

end Settings

end SourceRecipe
