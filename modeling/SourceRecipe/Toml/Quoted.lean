import SourceRecipe.Text.Blank
import SourceRecipe.Text.Digits

/-!
# Strings in TOML

A string stands in double quotes, where a backslash begins an escape, or in single quotes, where
every character stands for itself.  In quotes written three times it may go over several lines,
whose ends belong to it as they are written.
-/

namespace SourceRecipe.Toml

open SourceRecipe.Text

structure Quoting where
  /-- Whether it stands in double quotes and has escapes. -/
  escapes : Bool
  /-- Whether its quotes are written three times. -/
  long : Bool
  deriving DecidableEq

namespace Quoting

def mark (quoting : Quoting) : Char :=
  if quoting.escapes then '"' else '\''

def marks (quoting : Quoting) : List Char :=
  List.replicate (if quoting.long then 3 else 1) quoting.mark

end Quoting

/-- The characters that stand in a line: all but control characters, of which only the tab
does. -/
def isLineChar (c : Char) : Bool :=
  c == '\t' || (decide (0x20 ≤ c.toNat) && c != '\x7f')

/-! ## Reading -/

def escape? : Char → Option Char
  | 'b' => some '\x08'
  | 't' => some '\t'
  | 'n' => some '\n'
  | 'f' => some '\x0c'
  | 'r' => some '\r'
  | 'e' => some '\x1b'
  | '"' => some '"'
  | '\\' => some '\\'
  | _ => none

def readCode : (width : Nat) → Nat → List Char → Option (Char × List Char)
  | 0, code, rest =>
      if code.isValidChar then some (Char.ofNat code, rest) else none
  | width + 1, code, c :: rest => do
      let digit ← hexValue? c
      readCode width (16 * code + digit) rest
  | _ + 1, _, [] => none

def readEscape : List Char → Option (Char × List Char)
  | 'x' :: rest => readCode 2 0 rest
  | 'u' :: rest => readCode 4 0 rest
  | 'U' :: rest => readCode 8 0 rest
  | c :: rest => (escape? c).map fun c => (c, rest)
  | [] => none

def isGap (c : Char) : Bool :=
  isBlank c || c == '\n'

/-- Whether a text goes on with the end of a line: a line feed, which a carriage return may
stand before. -/
def startsLineEnd : List Char → Bool
  | '\n' :: _ => true
  | '\r' :: '\n' :: _ => true
  | _ => false

/-- What follows the white space that a backslash at the end of a line takes away. -/
def afterFold : List Char → List Char
  | '\r' :: '\n' :: rest => afterFold rest
  | c :: rest => if isGap c then afterFold rest else c :: rest
  | [] => []

/-- What follows a backslash at the end of a line, if there is one here. -/
def afterFold? (text : List Char) : Option (List Char) :=
  match afterBlanks text with
  | '\n' :: rest => some (afterFold rest)
  | '\r' :: '\n' :: rest => some (afterFold rest)
  | _ => none

/-- The end of a string, if it is here: the quotes of its content that stand right before the
closing ones, at most two and only in a long string, and what follows. -/
def closing? (quoting : Quoting) (text : List Char) : Option (List Char × List Char) :=
  if quoting.marks.isPrefixOf text then
    let rest := text.drop quoting.marks.length
    if quoting.long then
      let extra := (rest.take 2).takeWhile (· == quoting.mark)
      some (extra, rest.drop extra.length)
    else some ([], rest)
  else none

/-- The content of a string after its opening quotes.  Every step takes a character, so a fuel
above the length of the text never runs out. -/
def readBody (quoting : Quoting) : (fuel : Nat) → List Char → Option (List Char × List Char)
  | 0, _ => none
  | fuel + 1, text =>
      match closing? quoting text with
      | some ended => some ended
      | none =>
          match text with
          | [] => none
          | c :: rest =>
              let keep (c : Char) (rest : List Char) : Option (List Char × List Char) :=
                (readBody quoting fuel rest).map fun (content, rest) => (c :: content, rest)
              if c = '\\' ∧ quoting.escapes then
                match if quoting.long then afterFold? rest else none with
                | some rest => readBody quoting fuel rest
                | none =>
                    match readEscape rest with
                    | some (c, rest) => keep c rest
                    | none => none
              else if isLineChar c || quoting.long && startsLineEnd text then keep c rest
              else none

/-- What follows the line end that may come right after the opening quotes of a long string. -/
def afterOpening : List Char → List Char
  | '\n' :: rest => rest
  | '\r' :: '\n' :: rest => rest
  | text => text

/-- A string in quotes of one kind after the first quote; `long` tells whether quotes written
three times are looked for. -/
def readQuoted (escapes long : Bool) (text : List Char) : Option (String × List Char) :=
  let mark := Quoting.mark ⟨escapes, false⟩
  let (quoting, text) :=
    if long && [mark, mark].isPrefixOf text then
      ((⟨escapes, true⟩ : Quoting), afterOpening (text.drop 2))
    else (⟨escapes, false⟩, text)
  (readBody quoting (text.length + 1) text).map fun (content, rest) =>
    (String.ofList content, rest)

/-! ## Writing -/

def upperHex (n : Nat) : Char :=
  (hexDigit n).toUpper

/-- A character in double quotes, other than the quote itself. -/
def charText (long : Bool) (c : Char) : List Char :=
  if c = '\\' then ['\\', '\\']
  else if c = '\x08' then ['\\', 'b']
  else if c = '\t' then ['\\', 't']
  else if c = '\n' then if long then ['\n'] else ['\\', 'n']
  else if c = '\x0c' then ['\\', 'f']
  else if c = '\r' then ['\\', 'r']
  else if isLineChar c then [c]
  else ['\\', 'u', '0', '0', upperHex (c.toNat / 16), upperHex (c.toNat % 16)]

/-- The content of a string; `run` quotes have just been written.  Double quotes are escaped
where one more could be taken for the closing ones. -/
def bodyText (quoting : Quoting) : (run : Nat) → List Char → List Char
  | _, [] => []
  | run, c :: rest =>
      if !quoting.escapes then c :: bodyText quoting 0 rest
      else if c = '"' then
        if run < (if quoting.long then 2 else 0) then '"' :: bodyText quoting (run + 1) rest
        else '\\' :: '"' :: bodyText quoting 0 rest
      else charText quoting.long c ++ bodyText quoting 0 rest

/-- The length of the longest run of a character, `run` of which have just been seen. -/
def longestRun (mark : Char) : (run : Nat) → List Char → Nat
  | run, [] => run
  | run, c :: rest =>
      if c = mark then longestRun mark (run + 1) rest else max run (longestRun mark 0 rest)

/-- The way to write a string: the first of short double, short single, long double and long
single quotes in which nothing has to be escaped, and else double quotes with escapes. -/
def Quoting.ofText (text : List Char) : Quoting :=
  let clean := text.all fun c => isLineChar c || c == '\n'
  let oneLine := !text.contains '\n'
  let noBackslash := !text.contains '\\'
  let doubles := longestRun '"' 0 text
  let singles := longestRun '\'' 0 text
  if clean && oneLine && noBackslash && doubles == 0 then ⟨true, false⟩
  else if clean && oneLine && singles == 0 then ⟨false, false⟩
  else if clean && noBackslash && doubles ≤ 2 then ⟨true, true⟩
  else if clean && singles ≤ 2 then ⟨false, true⟩
  else ⟨true, !oneLine⟩

/-- A string in quotes.  A long string of several lines starts on a line of its own. -/
def quoted (text : List Char) : List Char :=
  let quoting := Quoting.ofText text
  let lead := if quoting.long && text.contains '\n' then ['\n'] else []
  quoting.marks ++ lead ++ bodyText quoting 0 text ++ quoting.marks

end SourceRecipe.Toml
