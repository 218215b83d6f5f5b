import SourceRecipe.Toml.Quoted
import SourceRecipe.Toml.Scalar
import SourceRecipe.Toml.Tables

/-!
# Reading TOML

A document is a list of lines: headers that open tables, and keys with values.  Readers take
the text that is left and answer with what they read and the rest.  Where one calls itself on a
text that is only known to be shorter, a counter that starts above the length of the text bounds
the recursion; every call takes a character, so it never runs out.
-/

namespace SourceRecipe.Toml

open SourceRecipe.Text

/-! ## White space and lines -/

/-- What follows white space, line ends and comments; `inComment` tells whether the text starts
inside a comment. -/
def afterGaps (inComment : Bool) : List Char → Option (List Char)
  | [] => some []
  | '\r' :: '\n' :: rest => afterGaps false rest
  | c :: rest =>
      if c = '\n' then afterGaps false rest
      else if inComment then if isLineChar c then afterGaps true rest else none
      else if isBlank c then afterGaps false rest
      else if c = '#' then afterGaps true rest
      else some (c :: rest)

/-- The text after the rest of a line, on which nothing but blanks and a comment may stand. -/
def afterLine (text : List Char) : Option (List Char) :=
  let text :=
    match afterBlanks text with
    | '#' :: comment => comment.dropWhile isLineChar
    | text => text
  match text with
  | [] => some []
  | '\n' :: rest => some rest
  | '\r' :: '\n' :: rest => some rest
  | _ => none

/-! ## Keys -/

def isNameChar (c : Char) : Bool :=
  c.isAlphanum || c == '-' || c == '_'

def readName (text : List Char) : Option (String × List Char) :=
  match text with
  | '"' :: rest => readQuoted true false rest
  | '\'' :: rest => readQuoted false false rest
  | _ =>
      let name := text.takeWhile isNameChar
      if name.isEmpty then none else some (String.ofList name, text.dropWhile isNameChar)

/-- The number of names that a key may have, and of brackets and braces that values may stand
in. -/
def levelLimit : Nat := 80

/-- A key of at most `levels` names after any blanks: names with points between them, as the
names before the last one and the last one; and the text after any blanks that follow. -/
def readNames : (levels : Nat) → List Char → Option ((List String × String) × List Char)
  | 0, _ => none
  | levels + 1, text => do
      let (name, rest) ← readName (afterBlanks text)
      match afterBlanks rest with
      | '.' :: rest => do
          let ((path, last), rest) ← readNames levels rest
          some ((name :: path, last), rest)
      | rest => some (([], name), rest)

def readKey (text : List Char) : Option ((List String × String) × List Char) :=
  readNames levelLimit text

/-! ## Values -/

mutual

/-- A value; `levels` more brackets and braces may be opened. -/
def readValue : (fuel levels : Nat) → List Char → Option (Toml × List Char)
  | 0, _, _ => none
  | fuel + 1, levels, text =>
      match text with
      | '"' :: rest => (readQuoted true true rest).map fun (value, rest) => (.string value, rest)
      | '\'' :: rest => (readQuoted false true rest).map fun (value, rest) => (.string value, rest)
      | '[' :: rest =>
          match levels with
          | 0 => none
          | levels + 1 => do
              let (items, rest) ← readItems fuel levels rest
              some (.array items, rest)
      | '\x7b' :: rest =>
          match levels with
          | 0 => none
          | levels + 1 => readFields fuel levels (.table .inline []) rest
      | _ => readScalar text

def readItems : (fuel levels : Nat) → List Char → Option (List Toml × List Char)
  | 0, _, _ => none
  | fuel + 1, levels, text => do
      match ← afterGaps false text with
      | ']' :: rest => some ([], rest)
      | text => do
          let (item, rest) ← readValue fuel levels text
          match ← afterGaps false rest with
          | ',' :: rest => do
              let (items, rest) ← readItems fuel levels rest
              some (item :: items, rest)
          | ']' :: rest => some ([item], rest)
          | _ => none

/-- The fields of a table in braces up to the closing one, added to those before. -/
def readFields : (fuel levels : Nat) → Toml → List Char → Option (Toml × List Char)
  | 0, _, _, _ => none
  | fuel + 1, levels, before, text => do
      match ← afterGaps false text with
      | '\x7d' :: rest => some (before, rest)
      | text => do
          let ((path, name), rest) ← readKey text
          match ← afterGaps false rest with
          | '=' :: rest => do
              let (value, rest) ← readValue fuel levels (← afterGaps false rest)
              let after ← addKey path name value before
              match ← afterGaps false rest with
              | ',' :: rest => readFields fuel levels after rest
              | '\x7d' :: rest => some (after, rest)
              | _ => none
          | _ => none

end

/-! ## Documents -/

inductive Line where
  /-- A header, in single brackets or in double ones. -/
  | header (many : Bool) (path : List String) (name : String)
  | field (path : List String) (name : String) (value : Toml)

def readHeader (text : List Char) : Option (Line × List Char) := do
  let (many, text) :=
    match text with
    | '[' :: rest => (true, rest)
    | _ => (false, text)
  let ((path, name), rest) ← readKey text
  match many, rest with
  | true, ']' :: ']' :: rest => some (.header true path name, rest)
  | false, ']' :: rest => some (.header false path name, rest)
  | _, _ => none

def readField (text : List Char) : Option (Line × List Char) := do
  let ((path, name), rest) ← readKey text
  match rest with
  | '=' :: rest => do
      let (value, rest) ← readValue (2 * text.length) levelLimit (afterBlanks rest)
      some (.field path name value, rest)
  | _ => none

def readLines : (fuel : Nat) → List Char → Option (List Line)
  | 0, _ => none
  | fuel + 1, text => do
      match ← afterGaps false text with
      | [] => some []
      | text => do
          let (line, rest) ←
            match text with
            | '[' :: rest => readHeader rest
            | _ => readField text
          let lines ← readLines fuel (← afterLine rest)
          some (line :: lines)

def addLines : (section? : Option (List String × String)) → Toml → List Line → Option Toml
  | _, document, [] => some document
  | _, document, .header many path name :: lines => do
      addLines (some (path, name)) (← openAt many path name document) lines
  | section?, document, .field path name value :: lines => do
      addLines section? (← addBelow section? path name value document) lines

/-- A text without the mark that may stand before it to tell its encoding. -/
def dropEncodingMark : List Char → List Char
  | '\ufeff' :: rest => rest
  | text => text

def read (text : List Char) : Option Toml := do
  let text := dropEncodingMark text
  addLines none .empty (← readLines (text.length + 1) text)

end SourceRecipe.Toml
