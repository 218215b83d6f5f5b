import SourceRecipe.Dict
import SourceRecipe.Path
import SourceRecipe.Text.Letters

/-!
# The environment

The variables of the environment, and paths that refer to them: `$NAME` and `$` with the name in
braces stand for the value of a variable, and `~` at the start stands for the home directory.
-/

namespace SourceRecipe

open SourceRecipe.Text

structure Environment where
  values : Dict String String

namespace Environment

/-- What an assignment of a variable holds after a name and an equals sign.  A name may reach
into the value: where `A` is `B=c`, the name `A=B` stands for `c`. -/
def assigned? (name : List Char) (assignment : String × String) : Option String :=
  (dropLead? (name ++ ['=']) (assignment.1.toList ++ '=' :: assignment.2.toList)).map
    String.ofList

/-- The value of a variable.  Nothing has the empty name. -/
def get? (environment : Environment) (name : String) : Option String :=
  if name.isEmpty then none else environment.values.entries.findSome? (assigned? name.toList)

def home? (environment : Environment) : Option Path :=
  (environment.get? "HOME").bind fun home => if home.isEmpty then none else some ⟨home⟩

/-- The characters of names that stand without braces. -/
def isNameChar (c : Char) : Bool :=
  isLetterOrNumber c || c == '_'

def value? (environment : Environment) (name : List Char) : Option (List Char) :=
  (environment.get? (String.ofList name)).map String.toList

/-- What stands for a reference in braces.  After a colon and a minus sign it may say what to
take if there is no such variable. -/
def inBraces? (environment : Environment) (reference : List Char) : Option (List Char) :=
  match cutPhrase? [':', '-'] reference with
  | some (name, usual) =>
      if name.isEmpty then environment.value? reference
      else (environment.value? name).or (some usual)
  | none => environment.value? reference

/-- What stands for a dollar sign and the characters of a reference after it, and the number of
those characters.  Two dollar signs stand for one, and a dollar sign that begins no reference
for itself.  There is nothing for a variable that is not set. -/
def reference? (environment : Environment) (text : List Char) : Option (List Char × Nat) :=
  match text with
  | '\x7b' :: rest =>
      match cutFirst? '\x7d' rest with
      | some (reference, _) =>
          (environment.inBraces? reference).map fun value => (value, reference.length + 2)
      | none => some (['$', '\x7b'], 1)
  | '$' :: _ => some (['$'], 1)
  | _ =>
      let name := text.takeWhile isNameChar
      if name.isEmpty then some (['$'], 0)
      else (environment.value? name).map fun value => (value, name.length)

/-- A text with its references replaced, if all variables are set.  `skip` characters belong to
a reference that has just been replaced.  Values are not searched for references. -/
def replaceReferences? (environment : Environment) : (skip : Nat) → List Char → Option (List Char)
  | _, [] => some []
  | skip + 1, _ :: rest => environment.replaceReferences? skip rest
  | 0, c :: rest =>
      if c = '$' then do
        let (value, skip) ← environment.reference? rest
        let others ← environment.replaceReferences? skip rest
        some (value ++ others)
      else (environment.replaceReferences? 0 rest).map (c :: ·)

/-- A text with the home directory for a `~` that stands alone before the first slash. -/
def replaceHome (environment : Environment) (text : List Char) : List Char :=
  match text, environment.home? with
  | ['~'], some home => home.chars
  | '~' :: '/' :: rest, some home => home.chars ++ '/' :: rest
  | _, _ => text

/-- A path with references and `~` replaced.  A `~` that a variable brings in stays, and where
a variable is not set nothing is replaced. -/
def expand (environment : Environment) (text : String) : Path :=
  match environment.replaceReferences? 0 text.toList with
  | none => ⟨text⟩
  | some replaced =>
      if text.toList.head? = some '~' then ⟨String.ofList (environment.replaceHome replaced)⟩
      else ⟨String.ofList replaced⟩

end Environment

end SourceRecipe
