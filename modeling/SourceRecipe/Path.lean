import SourceRecipe.Text.Phrase
import SourceRecipe.Text.Blank
import SourceRecipe.Text.Utf8

/-!
# Paths

A path is kept as the text it was written with; its parts are what the text means.  Slashes
separate the parts, doubled slashes and single points between parts say nothing, and a point at
the start of a relative path stays, so that `./a` and `a` are different paths.

The system also has paths that are no text.  They are left out, as a build only joins paths and hands
them on, except where the text of a path is asked for: a manifest keeps its targets as the bytes that
the system has (`SystemPath`).
-/

namespace SourceRecipe

open SourceRecipe.Text

inductive PathPart where
  /-- The root of the file system. -/
  | root
  /-- The place the path starts from. -/
  | here
  /-- One level up. -/
  | up
  | name (text : String)
  deriving DecidableEq, Ord

structure Path where
  text : String
  deriving DecidableEq

namespace Path

def chars (path : Path) : List Char := path.text.toList

def isAbsolute (path : Path) : Bool :=
  path.chars.head? == some '/'

/-- What a piece between slashes means, if anything. -/
def part? (piece : List Char) : Option PathPart :=
  if piece = [] ∨ piece = ['.'] then none
  else if piece = ['.', '.'] then some .up
  else some (.name (String.ofList piece))

def parts (path : Path) : List PathPart :=
  let pieces := pieces '/' path.chars
  if path.isAbsolute then .root :: pieces.filterMap part?
  else
    match pieces with
    | ['.'] :: others => .here :: others.filterMap part?
    | _ => pieces.filterMap part?

/-- What a piece between slashes does on the way to a file, if anything: a single point stays
where it is. -/
def step? (piece : List Char) : Option PathPart :=
  if piece = ['.'] then some .here else part? piece

/-- The steps of a path.  Unlike its parts they keep all points, and so tell whether what comes
before the last one has to be a directory. -/
def steps (path : Path) : List PathPart :=
  let steps := (pieces '/' path.chars).filterMap step?
  if path.isAbsolute then .root :: steps else steps

/-- The paths that a path begins with, each up to one of its names or steps up, from the longest
one to the shortest. -/
def heads (path : Path) : List Path :=
  let pieces := pieces '/' path.chars
  let heads := (List.range pieces.length).reverse.map fun n => pieces.take (n + 1)
  (heads.filter fun head => (head.getLast?.bind part?).isSome).map fun head =>
    ⟨String.ofList (Text.join ['/'] head)⟩

def endsInSlash (path : Path) : Bool :=
  path.chars.getLast? == some '/'

/-- A path below another one; an absolute path stands for itself. -/
def join (base path : Path) : Path :=
  if path.isAbsolute then path
  else if base.text.isEmpty || base.endsInSlash then ⟨base.text ++ path.text⟩
  else ⟨base.text ++ "/" ++ path.text⟩

def fileName? (path : Path) : Option String :=
  match path.parts.getLast? with
  | some (.name text) => some text
  | _ => none

/-- What follows the last point of the name at the end of a path, unless the name begins with
that point. -/
def extension? (path : Path) : Option String :=
  match path.fileName? with
  | none => none
  | some name =>
      match cutLast? '.' name.toList with
      | some (stem, extension) => if stem.isEmpty then none else some (String.ofList extension)
      | none => none

/-- Whether a path consists of names only, at least one of them. -/
def isPlain (path : Path) : Bool :=
  !path.text.isEmpty && path.parts.all fun
    | .name _ => true
    | _ => false

def ofNames (names : List String) : Path :=
  ⟨String.ofList (Text.join ['/'] (names.map String.toList))⟩

def listText (paths : List Path) : String :=
  String.ofList (Text.join [',', ' '] (paths.map Path.chars))

end Path

/-- A path as the system has it: bytes, which need not be the UTF-8 of a text. -/
structure SystemPath where
  bytes : ByteArray

instance : DecidableEq SystemPath := fun first second =>
  match ByteArray.instDecidableEq first.bytes second.bytes with
  | isTrue same => isTrue (congrArg SystemPath.mk same)
  | isFalse differ => isFalse fun same => differ (congrArg SystemPath.bytes same)

def Path.onSystem (path : Path) : SystemPath :=
  ⟨path.text.toUTF8⟩

namespace SystemPath

def text? (path : SystemPath) : Option String :=
  String.fromUTF8? path.bytes

/-- How a path is shown to people, with replacement characters where its bytes are no text. -/
def shown (path : SystemPath) : String :=
  path.text?.getD (String.ofList (decode path.bytes.data.toList))

end SystemPath

end SourceRecipe
