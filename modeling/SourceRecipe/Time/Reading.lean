import SourceRecipe.Time.Instant
import SourceRecipe.Text.Blank
import SourceRecipe.Text.Phrase
import SourceRecipe.Number.Powers

/-!
# Reading instants

Three forms of a date are read from recipe text: RFC 3339 (`2020-01-01T12:30:00.5+01:00`), a
date and a time without a zone, and a date alone; the last two count as UTC.  A fourth, looser
form of RFC 3339 with optional white space is read from data files.

Every function takes the text that is left and answers with a value and the rest.
-/

namespace SourceRecipe.Time

open SourceRecipe.Text

def readNumber (least most : Nat) (text : List Char) : Option (Nat × List Char) :=
  let digits := (text.take most).takeWhile Char.isDigit
  if digits.length < least then none
  else some (digitsValue digits, text.drop digits.length)

def readMark (mark : Char) : List Char → Option (List Char)
  | [] => none
  | c :: rest => if c = mark then some rest else none

/-- A fraction of a second: a point and digits, of which the first nine count. -/
def readFraction : List Char → Option (Nat × List Char)
  | '.' :: rest =>
      match readNumber 1 9 rest with
      | none => none
      | some (value, after) =>
          let width := rest.length - after.length
          some (value * tenTo (9 - width), after.dropWhile Char.isDigit)
  | rest => some (0, rest)

inductive ZoneMark where
  /-- Exactly one colon. -/
  | colon
  /-- Any run of colons and white space, also an empty one. -/
  | loose

def ZoneMark.read : ZoneMark → List Char → Option (List Char)
  | colon, text => readMark ':' text
  | loose, text => some (text.dropWhile fun c => c == ':' || isSpace c)

def readPair : List Char → Option (Nat × List Char)
  | a :: b :: rest =>
      if a.isDigit && b.isDigit then some (10 * digitValue a + digitValue b, rest) else none
  | _ => none

/-- A zone: `Z`, or a sign with hours and minutes, as seconds east of Greenwich. -/
def readZone (mark : ZoneMark) : List Char → Option (Int × List Char)
  | [] => none
  | c :: rest =>
      if c = 'Z' ∨ c = 'z' then some (0, rest)
      else if c = '+' ∨ c = '-' ∨ c = '\u2212' then do
        let (hours, rest) ← readPair rest
        let rest ← mark.read rest
        let (minutes, rest) ← readPair rest
        if minutes < 60 then
          let east : Int := hours * 3600 + minutes * 60
          some (if c = '+' then east else -east, rest)
        else none
      else none

/-- A clock whose parts are in range, where second 60 is a leap second. -/
def Clock.of? (hour minute second nano : Nat) : Option Clock :=
  if hour < 24 ∧ minute < 60 ∧ second ≤ 60 then some ⟨hour, minute, second, nano⟩ else none

/-- The instant that a date, a time and a zone of less than a day name, if its own date in UTC is
one that dates may be. -/
def instant? (year : Int) (month day hour minute second nano : Nat) (offset : Int) :
    Option Instant := do
  let date ← Date.of? year month day
  let clock ← Clock.of? hour minute second nano
  let instant := Instant.ofClock date clock offset
  if -86400 < offset ∧ offset < 86400 ∧ instant.isRepresentable then some instant else none

/-- An instant in the strict form of RFC 3339, which takes up the whole text. -/
def readRfc3339 (text : List Char) : Option Instant := do
  let (year, text) ← readNumber 4 4 text
  let text ← readMark '-' text
  let (month, text) ← readNumber 2 2 text
  let text ← readMark '-' text
  let (day, text) ← readNumber 2 2 text
  let text ←
    match text with
    | c :: rest => if c = 'T' ∨ c = 't' ∨ c = ' ' then some rest else none
    | [] => none
  let (hour, text) ← readNumber 2 2 text
  let text ← readMark ':' text
  let (minute, text) ← readNumber 2 2 text
  let text ← readMark ':' text
  let (second, text) ← readNumber 2 2 text
  let (nano, text) ← readFraction text
  let (offset, text) ← readZone .colon text
  if text.isEmpty then instant? year month day hour minute second nano offset else none

/-- A year that may have white space before it: up to four digits, or a sign and any number of
digits. -/
def readYear (text : List Char) : Option (Int × List Char) :=
  match trimStart text with
  | '-' :: rest => (readNumber 1 rest.length rest).map fun (n, rest) => (-(n : Int), rest)
  | '+' :: rest => (readNumber 1 rest.length rest).map fun (n, rest) => ((n : Int), rest)
  | rest => (readNumber 1 4 rest).map fun (n, rest) => ((n : Int), rest)

/-- A part of a date or a time: one or two digits that may have white space before them. -/
def readPart (text : List Char) : Option (Nat × List Char) :=
  readNumber 1 2 (trimStart text)

def readDate (text : List Char) : Option ((Int × Nat × Nat) × List Char) := do
  let (year, text) ← readYear text
  let text ← readMark '-' text
  let (month, text) ← readPart text
  let text ← readMark '-' text
  let (day, text) ← readPart text
  some ((year, month, day), text)

/-- A date and a time without a zone, which take up the whole text. -/
def readDateTime (text : List Char) : Option Instant := do
  let ((year, month, day), text) ← readDate text
  let text ← readMark 'T' text
  let (hour, text) ← readPart text
  let text ← readMark ':' text
  let (minute, text) ← readPart text
  let text ← readMark ':' text
  let (second, text) ← readPart text
  if text.isEmpty then instant? year month day hour minute second 0 0 else none

/-- A date alone, which takes up the whole text and stands for the start of its day. -/
def readDay (text : List Char) : Option Instant := do
  let ((year, month, day), text) ← readDate text
  if text.isEmpty then instant? year month day 0 0 0 0 0 else none

/-- An instant as recipe text has it: RFC 3339, else a date and a time, else a date. -/
def Instant.read (text : List Char) : Option Instant :=
  (readRfc3339 text).or ((readDateTime text).or (readDay text))

def readUtc : List Char → Option (List Char)
  | u :: t :: c :: rest =>
      if u.toUpper = 'U' ∧ t.toUpper = 'T' ∧ c.toUpper = 'C' then some rest else none
  | _ => none

/-- An instant as data files have it: RFC 3339 with white space between its parts. -/
def Instant.readLoose (text : List Char) : Option Instant := do
  let (year, text) ← readYear text
  let text ← readMark '-' (trimStart text)
  let (month, text) ← readPart text
  let text ← readMark '-' (trimStart text)
  let (day, text) ← readPart text
  let text ←
    match text with
    | c :: rest => if c = 'T' ∨ c = 't' ∨ c = ' ' then some rest else none
    | [] => none
  let (hour, text) ← readPart text
  let text ← readMark ':' (trimStart text)
  let (minute, text) ← readPart text
  let text ← readMark ':' (trimStart text)
  let (second, text) ← readPart text
  let (nano, text) ← readFraction text
  let text := trimStart text
  let (offset, text) ←
    match readUtc text with
    | some rest => some (0, rest)
    | none => readZone .loose text
  if (trimStart text).isEmpty then instant? year month day hour minute second nano offset
  else none

end SourceRecipe.Time
