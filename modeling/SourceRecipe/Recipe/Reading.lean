import SourceRecipe.Recipe.Printer
import SourceRecipe.Recipe.Problem
import SourceRecipe.Number.Binary64
import SourceRecipe.Text.Blank

/-!
# Reading recipe text

A text is read line by line.  The first line is the header.  Of the others, those that hold
blanks only or begin with a number sign say nothing; the first one that remains names the base
branch and every further one is an instruction.  A line reader takes what is left of a line and
answers with what it read and the new rest, or stops with a problem.

Nothing is carried from one line to the next but the base branch and the instructions read so
far, so an error depends on the text up to its line only.
-/

namespace SourceRecipe

open SourceRecipe.Text

namespace Line

/-- The rest of a line after the blanks that must stand there. -/
def skipBlanks (expected : Expected) (line : List Char) : Except Stop (List Char) :=
  match line with
  | [] => .error ⟨line, .lineEnds expected⟩
  | c :: _ =>
      if isBlank c then .ok (afterBlanks line) else .error ⟨line, .noBlank expected c⟩

/-- A word, which may not be empty. -/
def takeWord (expected : Expected) (line : List Char) : Except Stop (String × List Char) :=
  if (word line).isEmpty then .error ⟨line, .lineEnds expected⟩
  else .ok (String.ofList (word line), afterWord line)

def nextWord (expected : Expected) (line : List Char) : Except Stop (String × List Char) :=
  (skipBlanks expected line).bind (takeWord expected)

def finish (line : List Char) : Except Stop Unit :=
  let rest := afterBlanks line
  if rest.isEmpty then .ok () else .error ⟨rest, .trailing (String.ofList (word rest))⟩

/-- The specifier that may end a line; without one the tip is meant. -/
def takeSpecifier (line : List Char) : Except Stop (Specifier × List Char) :=
  let rest := afterBlanks line
  if rest.isEmpty then .ok (.tip, rest)
  else
    match Specifier.read (word rest) with
    | .ok specifier => .ok (specifier, afterWord rest)
    | .error error => .error ⟨rest, .badSpecifier error⟩

def isSilent (line : List Char) : Bool :=
  match afterBlanks line with
  | [] => true
  | c :: _ => c == '#'

/-- The depth that the indent of a line stands for: two spaces a level. -/
def depth (line : List Char) : Except Stop Nat :=
  let indent := blanks line
  if '\t' ∈ indent then .error ⟨afterBlanks line, .tabIndent⟩
  else if indent.length % 2 ≠ 0 then .error ⟨afterBlanks line, .oddIndent⟩
  else .ok (indent.length / 2)

end Line

namespace Header

def tools : List String := [Recipe.tool, "bzr-builder"]

/-- The digits before and after the point of a number, if the word is one. -/
def number? (text : List Char) : Option (List Char × List Char) :=
  match cutFirst? '.' text with
  | none => if isNumeral text then some (text, []) else none
  | some (whole, fraction) =>
      if isNumeral whole && isNumeral fraction then some (whole, fraction) else none

/-- The floating point number nearest to digits before and after a point. -/
def numberBits (number : List Char × List Char) : Nat :=
  Binary64.nearestBits (digitsValue (number.1 ++ number.2)) (tenTo number.2.length)

/-- Whether the number is not above the newest format, as floating point numbers. -/
def isKnownFormat (number : List Char × List Char) : Bool :=
  numberBits number ≤ numberBits (['0'], ['4'])

def readSign (line : List Char) : Except Stop (List Char) :=
  match line with
  | [] => .error ⟨line, .lineEnds .numberSign⟩
  | c :: rest =>
      if c = '#' then .ok rest
      else .error ⟨line, .unexpected .numberSign (String.singleton c)⟩

def readTool (line : List Char) : Except Stop (List Char) := do
  let line := afterBlanks line
  let (tool, rest) ← Line.takeWord .tool line
  if tool ∈ tools then .ok rest else .error ⟨line, .unexpected .tool tool⟩

def readFormatWord (line : List Char) : Except Stop (List Char) := do
  let line ← Line.skipBlanks .formatWord line
  if line.isEmpty then .error ⟨line, .lineEnds .formatWord⟩
  else if word line = "format".toList then .ok (afterWord line)
  else .error ⟨line, .unexpected .formatWord (String.ofList (word line))⟩

def readFormat (line : List Char) : Except Stop (String × List Char) := do
  let line ← Line.skipBlanks .formatVersion line
  let token := word line
  match number? token with
  | none => .error ⟨line, .notANumber (String.ofList token)⟩
  | some number =>
      if isKnownFormat number then .ok (String.ofList token, afterWord line)
      else .error ⟨line, .newerFormat (String.ofList token)⟩

def readVersion (line : List Char) : Except Stop ((Option String) × List Char) := do
  let line := afterBlanks line
  if line.isEmpty then .ok (none, line)
  else if word line = "deb-version".toList then
    let (template, rest) ← Line.nextWord .versionValue (afterWord line)
    .ok (some template, rest)
  else .error ⟨line, .unexpectedVersionWord (String.ofList (word line))⟩

def read (line : List Char) : Except Stop Header := do
  let line ← readSign line
  let line ← readTool line
  let line ← readFormatWord line
  let (format, line) ← readFormat line
  let (version, line) ← readVersion line
  Line.finish line
  .ok ⟨format, version⟩

end Header

def Source.read (line : List Char) : Except Stop Source := do
  let (location, line) ← Line.takeWord .startBranch line
  let (specifier, line) ← Line.takeSpecifier line
  Line.finish line
  .ok ⟨location, specifier⟩

def Step.read (line : List Char) : Except Stop (Step Source) := do
  let keyword := word line
  if keyword = "merge".toList then
    let (nickname, line) ← Line.nextWord .nickname (afterWord line)
    let (location, line) ← Line.nextWord .location line
    let (specifier, line) ← Line.takeSpecifier line
    Line.finish line
    .ok ⟨nickname, .merge, ⟨location, specifier⟩, .done⟩
  else if keyword = "nest".toList then
    let (nickname, line) ← Line.nextWord .nickname (afterWord line)
    let (location, line) ← Line.nextWord .location line
    let (place, line) ← Line.nextWord .nestLocation line
    let (specifier, line) ← Line.takeSpecifier line
    Line.finish line
    .ok ⟨nickname, .nest place, ⟨location, specifier⟩, .done⟩
  else if line.isEmpty then .error ⟨line, .lineEnds .instruction⟩
  else .error ⟨line, .unexpected .instruction (String.ofList keyword)⟩

/-- What has been read of a recipe below its header: the base branch, and the instructions with
their depths, the last one first. -/
structure Draft where
  base : Option Source
  steps : List (Nat × Step Source)

namespace Draft

def empty : Draft := ⟨none, []⟩

/-- Whether the next instruction may stand at this depth: at most one level below the
instruction before it, and at the top if there is none. -/
def checkDepth (draft : Draft) (depth : Nat) (rest : List Char) : Except Stop Unit :=
  if depth = 0 then .ok ()
  else
    match draft.steps with
    | [] => .error ⟨rest, .indentedFirst⟩
    | (previous, _) :: _ =>
        if depth > previous + 1 then .error ⟨rest, .indentedTwice⟩ else .ok ()

def readLine (draft : Draft) (line : List Char) : Except Stop Draft :=
  if Line.isSilent line then .ok draft
  else do
    let depth ← Line.depth line
    let body := afterBlanks line
    match draft.base with
    | none =>
        if depth > 0 then .error ⟨body, .indentedBase⟩
        else
          let base ← Source.read body
          .ok { draft with base := some base }
    | some _ =>
        draft.checkDepth depth body
        let step ← Step.read body
        .ok { draft with steps := (depth, step) :: draft.steps }

/-- What has been read after the lines from number `number` on, or the number of the line that
stops the reading, that line and its problem. -/
def readLines (draft : Draft) (number : Nat) :
    List (List Char) → Except (Nat × List Char × Stop) Draft
  | [] => .ok draft
  | line :: others =>
      match draft.readLine line with
      | .error stop => .error (number, line, stop)
      | .ok next => next.readLines (number + 1) others

def tree? (draft : Draft) : Option (Tree Source) :=
  draft.base.map fun base => (Tree.mk base .done).attach draft.steps.reverse

end Draft

namespace Recipe

def readLines (filename : String) (lines : List (List Char)) : Except ParseError Recipe :=
  let first := lines.headD []
  match Header.read first with
  | .error stop => .error ⟨filename, 1, stop.column first, stop.problem⟩
  | .ok header =>
      match Draft.empty.readLines 2 lines.tail with
      | .error (number, line, stop) =>
          .error ⟨filename, number, stop.column line, stop.problem⟩
      | .ok draft =>
          match draft.tree? with
          | none => .error ⟨filename, lines.length, 1, .empty⟩
          | some tree => .ok ⟨header, tree⟩

/-- The recipe that a text holds; errors name the text by `filename`. -/
def read (filename : String) (text : List Char) : Except ParseError Recipe :=
  readLines filename (Text.lines text)

def defaultFilename : String := "recipe"

def readText (text : List Char) : Except ParseError Recipe :=
  read defaultFilename text

end Recipe

end SourceRecipe
