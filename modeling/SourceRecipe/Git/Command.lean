import SourceRecipe.Backend.Basic
import SourceRecipe.Text.Utf8

/-!
# Running `git`

A command is a program with its arguments, run in a directory.  A shell runs commands: it
answers with what a program printed and the code it ended with, or with a fault when the
program could not be started or was ended by a token.
-/

namespace SourceRecipe.Git

open SourceRecipe.Text

/-- A program to run, in a directory or where paths start from. -/
structure Command where
  program : Path
  directory : Option Path
  arguments : List String
  /-- Whether the program may ask its user questions. -/
  mayAsk : Bool
  deriving DecidableEq

structure Reply where
  code : Nat
  output : ByteArray
  errors : ByteArray

/-- What runs commands; a token ends a running program. -/
abbrev Shell (ε : Type) := Option Token → Command → Call ε Reply

namespace Reply

def succeeded (reply : Reply) : Bool := reply.code == 0

def text (reply : Reply) : List Char := decode reply.output.toList

def errorText (reply : Reply) : List Char := decode reply.errors.toList

def word (reply : Reply) : String := String.ofList (trim reply.text)

/-- The lines of a text: line feeds end them, and one carriage return before a line feed
belongs to it. -/
def linesOf (text : List Char) : List (List Char) :=
  let pieces := pieces '\n' text
  pieces.dropLast.map (fun line => if line.getLast? = some '\r' then line.dropLast else line) ++
    (pieces.getLast?.toList).filter (fun line => !line.isEmpty)

def fullLines (reply : Reply) : List String :=
  ((linesOf reply.text).filter fun line => !(trim line).isEmpty).map String.ofList

/-- The number that a program printed, if it is below 2 ^ 64. -/
def number? (reply : Reply) : Option Nat :=
  let text := trim reply.text
  let digits := match text with
    | '+' :: digits => digits
    | _ => text
  if isNumeral digits ∧ digitsValue digits < twoTo 64 then some (digitsValue digits) else none

end Reply

end SourceRecipe.Git
