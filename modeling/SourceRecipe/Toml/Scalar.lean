import SourceRecipe.Number.Real
import SourceRecipe.Time.Reading
import SourceRecipe.Toml.Basic

/-!
# Numbers, truth values and times in TOML

These values are written without quotes.  Each is one token, except that a space may stand
between a date and a time.  How a token begins, its points and exponents, and the places of its
underscores tell whether it is a number; whether the number has a value is a second question,
and a number without one is not yet an error.
-/

namespace SourceRecipe.Toml

open SourceRecipe.Text

/-- The characters of tokens: all but blanks, line ends, and the marks between values. -/
def isTokenChar (c : Char) : Bool :=
  !(c == ' ' || c == '\t' || c == '\n' || c == '\r' || c == '#' || c == ',' || c == '=' ||
    c == '[' || c == ']' || c == '\x7b' || c == '\x7d')

/-! ## Signs, digits and underscores -/

def signed (text : List Char) : Bool × List Char :=
  match text with
  | '-' :: rest => (true, rest)
  | '+' :: rest => (false, rest)
  | _ => (false, text)

/-- Whether every underscore stands between digits; `afterDigit` tells whether the text follows
one. -/
def isSpaced (isDigit : Char → Bool) : (afterDigit : Bool) → List Char → Bool
  | _, [] => true
  | afterDigit, c :: rest =>
      if c = '_' then afterDigit && rest.head?.any isDigit && isSpaced isDigit false rest
      else isSpaced isDigit (isDigit c) rest

/-- Whether every underscore of a number stands between digits, or between its sign and a
digit. -/
def isWellSpaced (isDigit : Char → Bool) (token : List Char) : Bool :=
  let (_, text) := signed token
  isSpaced isDigit (decide (text.length < token.length)) text

def isHexDigit (c : Char) : Bool :=
  (hexValue? c).isSome

def isGroupChar (c : Char) : Bool :=
  c.isDigit || c == '_'

/-- The digits of a group, of which there must be one, and what follows the group. -/
def readGroup (text : List Char) : Option (List Char × List Char) :=
  let digits := (text.takeWhile isGroupChar).filter Char.isDigit
  if digits.isEmpty then none else some (digits, text.dropWhile isGroupChar)

/-! ## Integers -/

def inRange (n : Int) : Bool :=
  decide (-(twoTo 127 : Int) ≤ n ∧ n < twoTo 128)

def ofInt (n : Int) : Toml :=
  if inRange n then .integer n else .unvalued

/-- An integer to a base other than ten: digits that are less than the base, even none, and
underscores. -/
def based? (base : Nat) (text : List Char) : Option Toml :=
  let digits := text.filter (· != '_')
  if digits.all (fun c => (hexValue? c).any (· < base)) ∧ isSpaced isHexDigit false text then
    if digits.isEmpty then some .unvalued
    else some (ofInt (digits.foldl (fun total c => base * total + (hexValue? c).getD 0) 0))
  else none

/-- A decimal integer without its sign.  It does not begin with a zero, unless it is zero, and
behind the first underscore it may have any characters, but has a value only if they are
digits. -/
def whole? (negative : Bool) (text : List Char) : Option Toml :=
  match text.dropWhile Char.isDigit with
  | [] | '_' :: _ =>
      if text = [] ∨ (text.head? = some '0' ∧ text ≠ ['0']) then none
      else if text.all isGroupChar then
        let n : Int := digitsValue (text.filter Char.isDigit)
        some (ofInt (if negative then -n else n))
      else some .unvalued
  | _ => none

/-! ## Floats -/

/-- The float nearest to a decimal.  Powers so large or so small that the digits cannot matter
are not worked out. -/
def nearest (negative : Bool) (digits : List Char) (power : Int) : Float :=
  let significant := digits.dropWhile (· == '0')
  let size : Int := significant.length + power
  if significant.isEmpty ∨ size < -400 then Binary64.ofMagnitude negative 0
  else if 400 < size then Binary64.ofMagnitude negative Binary64.infinity
  else Binary64.ofDecimal negative (digitsValue significant) power

def exponent? : List Char → Option Int
  | [] => some 0
  | c :: rest =>
      if c = 'e' ∨ c = 'E' then do
        let (negative, rest) := signed rest
        let (digits, rest) ← readGroup rest
        if rest ≠ [] then none
        else some (if negative then -(digitsValue digits : Int) else digitsValue digits)
      else none

/-- The digits and the power of ten of a float without its sign: a group that does not begin
with a zero, unless it has no other digit, a fraction and an exponent. -/
def scaled? (text : List Char) : Option (List Char × Int) := do
  let (digits, rest) ← readGroup text
  if text.head? = some '0' ∧ digits.length ≠ 1 then none
  let (fraction, rest) ←
    match rest with
    | '.' :: rest => readGroup rest
    | rest => some ([], rest)
  let exponent ← exponent? rest
  some (digits ++ fraction, exponent - fraction.length)

/-- A decimal as a value, given the float nearest to it; it has none above all finite floats. -/
def ofFloat (x : Float) : Toml :=
  if x.isInf then .unvalued else .float x

/-! ## Numbers -/

def isFloatMark (c : Char) : Bool :=
  c == '.' || c == 'e' || c == 'E'

/-- The number that a token stands for, with or without a value. -/
def number? (token : List Char) : Option Toml :=
  let (negative, text) := signed token
  if text = "inf".toList then some (.float (Binary64.ofMagnitude negative Binary64.infinity))
  else if text = "nan".toList then some (.float (0.0 / 0.0))
  else
    match token with
    | '0' :: 'x' :: rest => based? 16 rest
    | '0' :: 'o' :: rest => based? 8 rest
    | '0' :: 'b' :: rest => based? 2 rest
    | _ =>
        if text.any isFloatMark then
          if isWellSpaced Char.isDigit token then
            (scaled? text).map fun (digits, power) => ofFloat (nearest negative digits power)
          else none
        else if isWellSpaced isHexDigit token then whole? negative text
        else none

/-! ## Times -/

def afterDate? (text : List Char) : Option (List Char) := do
  let (year, text) ← Time.readNumber 4 4 text
  let text ← Time.readMark '-' text
  let (month, text) ← Time.readNumber 2 2 text
  let text ← Time.readMark '-' text
  let (day, text) ← Time.readNumber 2 2 text
  let _ ← Time.Date.of? year month day
  some text

/-- What follows a time of day; the seconds may be missing. -/
def afterClock? (text : List Char) : Option (List Char) := do
  let (hour, text) ← Time.readNumber 2 2 text
  let text ← Time.readMark ':' text
  let (minute, text) ← Time.readNumber 2 2 text
  let (second, text) ←
    match text with
    | ':' :: rest => do
        let (second, text) ← Time.readNumber 2 2 rest
        let (_, text) ← Time.readFraction text
        some (second, text)
    | _ => some (0, text)
  let _ ← Time.Clock.of? hour minute second 0
  some text

/-- Whether a text is nothing, or a zone of less than a day. -/
def isZoneOrEmpty (text : List Char) : Bool :=
  text.isEmpty ||
    match Time.readZone .colon text with
    | some (offset, rest) => rest.isEmpty && decide (offset.natAbs < 86400)
    | none => false

/-- Whether a text is a time of day, a date, or a date and a time with or without a zone. -/
def isTime (text : List Char) : Bool :=
  afterClock? text == some [] ||
    match afterDate? text with
    | some [] => true
    | some (c :: rest) =>
        (c == 'T' || c == 't' || c == ' ') &&
          match afterClock? rest with
          | some rest => isZoneOrEmpty rest
          | none => false
    | none => false

/-! ## Tokens -/

def ofToken? (token : List Char) : Option Toml :=
  if token = "true".toList then some (.bool true)
  else if token = "false".toList then some (.bool false)
  else if isTime token then some .time
  else number? token

/-- A token and what follows it.  A time after a date and a space belongs to the token. -/
def readToken (text : List Char) : List Char × List Char :=
  let token := text.takeWhile isTokenChar
  let rest := text.dropWhile isTokenChar
  match afterDate? token, rest with
  | some [], ' ' :: c :: others =>
      if c.isDigit then
        (token ++ ' ' :: (c :: others).takeWhile isTokenChar,
          (c :: others).dropWhile isTokenChar)
      else (token, rest)
  | _, _ => (token, rest)

def readScalar (text : List Char) : Option (Toml × List Char) :=
  let (token, rest) := readToken text
  (ofToken? token).map fun value => (value, rest)

end SourceRecipe.Toml
