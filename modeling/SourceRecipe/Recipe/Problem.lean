import SourceRecipe.Specifier

/-!
# What can be wrong with recipe text

A text is refused with a problem and the place of the word that could not be taken.  Lines and
columns count from one, columns in characters.
-/

namespace SourceRecipe

inductive Expected where
  /-- The number sign of the header. -/
  | numberSign
  /-- The word for the tool. -/
  | tool
  /-- The word before the format version. -/
  | formatWord
  | formatVersion
  | versionValue
  | startBranch
  | instruction
  | nickname
  | location
  | nestLocation
  deriving DecidableEq

def Expected.text : Expected → String
  | numberSign => "'#'"
  | tool => "'git-build-recipe'"
  | formatWord => "'format'"
  | formatVersion => "format version"
  | versionValue => "a value for 'deb-version'"
  | startBranch => "the branch to start from"
  | instruction => "'merge' or 'nest'"
  | nickname => "the branch nickname"
  | location => "the branch url"
  | nestLocation => "the location to nest"

inductive Problem where
  /-- The line ends too early. -/
  | lineEnds (expected : Expected)
  /-- A blank is missing before what is expected. -/
  | noBlank (expected : Expected) (found : Char)
  /-- Another word or character stands there. -/
  | unexpected (expected : Expected) (found : String)
  | unexpectedVersionWord (found : String)
  | notANumber (found : String)
  | newerFormat (found : String)
  /-- Something stands after the last word of a line. -/
  | trailing (found : String)
  | badSpecifier (error : SpecifierError)
  | tabIndent
  | oddIndent
  | indentedBase
  /-- An indented line that no instruction stands before. -/
  | indentedFirst
  | indentedTwice
  /-- No line names a branch. -/
  | empty
  deriving DecidableEq

def Problem.message : Problem → String
  | lineEnds expected => s!"End of line while looking for {expected.text}"
  | noBlank expected found => s!"Expecting whitespace before {expected.text}, got '{found}'"
  | unexpected expected found => s!"Expecting {expected.text}, got '{found}'"
  | unexpectedVersionWord found => s!"Expecting 'deb-version', got '{found}'"
  | notANumber found => s!"Expecting a float, got '{found}'"
  | newerFormat found => s!"Unknown format '{found}', newest supported is 0.4"
  | trailing found => s!"Expecting the end of the line, got '{found}'"
  | badSpecifier error => error.message
  | tabIndent => "Indents may not be done by tabs"
  | oddIndent => "Indent not a multiple of two spaces"
  | indentedBase => "Not allowed to indent the base branch"
  | indentedFirst => "Not allowed to indent unless after a 'merge' or 'nest' line"
  | indentedTwice => "Indented by more than two spaces at once"
  | empty => "Empty recipe"

structure ParseError where
  filename : String
  line : Nat
  column : Nat
  problem : Problem
  deriving DecidableEq

def placed (filename : String) (line column : Nat) (remark : String) : String :=
  s!"error parsing {filename}:{line}:{column}: {remark}"

def ParseError.message (error : ParseError) : String :=
  placed error.filename error.line error.column error.problem.message

structure Stop where
  rest : List Char
  problem : Problem
  deriving DecidableEq

def Stop.column (stop : Stop) (line : List Char) : Nat :=
  line.length - stop.rest.length + 1

end SourceRecipe
