import SourceRecipe.Json.Basic
import SourceRecipe.Text.Digits

/-!
# Reading JSON

Readers take the text that is left and answer with a value and the rest.  Values nest to any
depth; a counter that starts above the length of the text bounds the recursion, and since every
value has at least one character it never runs out.
-/

namespace SourceRecipe.Json

open SourceRecipe.Text

def isGap (c : Char) : Bool :=
  c == ' ' || c == '\n' || c == '\t' || c == '\r'

def skipGap (text : List Char) : List Char :=
  text.dropWhile isGap

def readHex4 : List Char → Option (Nat × List Char)
  | a :: b :: c :: d :: rest => do
      let a ← hexValue? a
      let b ← hexValue? b
      let c ← hexValue? c
      let d ← hexValue? d
      some (((a * 16 + b) * 16 + c) * 16 + d, rest)
  | _ => none

def escape? : Char → Option Char
  | '"' => some '"'
  | '\\' => some '\\'
  | '/' => some '/'
  | 'b' => some '\x08'
  | 'f' => some '\x0c'
  | 'n' => some '\n'
  | 'r' => some '\r'
  | 't' => some '\t'
  | _ => none

/-- A part of a string: a character, or a UTF-16 code unit that an escape gives. -/
inductive StringPart where
  | char (c : Char)
  | unit (code : Nat)

def readParts : (fuel : Nat) → List Char → Option (List StringPart × List Char)
  | 0, _ => none
  | fuel + 1, text =>
      match text with
      | [] => none
      | '"' :: rest => some ([], rest)
      | '\\' :: 'u' :: rest => do
          let (code, rest) ← readHex4 rest
          let (parts, rest) ← readParts fuel rest
          some (.unit code :: parts, rest)
      | '\\' :: c :: rest => do
          let c ← escape? c
          let (parts, rest) ← readParts fuel rest
          some (.char c :: parts, rest)
      | c :: rest =>
          if c.toNat < 0x20 then none
          else do
            let (parts, rest) ← readParts fuel rest
            some (.char c :: parts, rest)

/-- The text that the parts of a string spell, unless a surrogate stands alone. -/
def spell : List StringPart → Option (List Char)
  | [] => some []
  | .char c :: others => (spell others).map (c :: ·)
  | .unit high :: .unit low :: others =>
      if 0xD800 ≤ high ∧ high < 0xDC00 then
        if 0xDC00 ≤ low ∧ low < 0xE000 then
          (spell others).map
            (Char.ofNat (0x10000 + (high - 0xD800) * 0x400 + (low - 0xDC00)) :: ·)
        else none
      else if 0xDC00 ≤ high ∧ high < 0xE000 then none
      else (spell (.unit low :: others)).map (Char.ofNat high :: ·)
  | .unit code :: others =>
      if 0xD800 ≤ code ∧ code < 0xE000 then none
      else (spell others).map (Char.ofNat code :: ·)

def readString (text : List Char) : Option (Option String × List Char) := do
  let (parts, rest) ← readParts (text.length + 1) text
  some ((spell parts).map String.ofList, rest)

def digits (text : List Char) : List Char × List Char :=
  (text.takeWhile Char.isDigit, text.dropWhile Char.isDigit)

/-- A whole number, which has no leading zero. -/
def readWhole (text : List Char) : Option (List Char × List Char) :=
  let (whole, rest) := digits text
  if whole.isEmpty || (whole.head? == some '0' && decide (1 < whole.length)) then none
  else some (whole, rest)

def readFraction (text : List Char) : Option (List Char × List Char) :=
  match text with
  | '.' :: rest =>
      let (fraction, rest) := digits rest
      if fraction.isEmpty then none else some ('.' :: fraction, rest)
  | _ => some ([], text)

def readSign (text : List Char) : List Char × List Char :=
  match text with
  | '+' :: rest => (['+'], rest)
  | '-' :: rest => (['-'], rest)
  | _ => ([], text)

def readExponent (text : List Char) : Option (List Char × List Char) :=
  match text with
  | [] => some ([], [])
  | c :: rest =>
      if c = 'e' ∨ c = 'E' then
        let (sign, rest) := readSign rest
        let (exponent, rest) := digits rest
        if exponent.isEmpty then none else some (c :: (sign ++ exponent), rest)
      else some ([], text)

def readNumber (text : List Char) : Option (List Char × List Char) := do
  let (sign, rest) :=
    match text with
    | '-' :: rest => (['-'], rest)
    | _ => ([], text)
  let (whole, rest) ← readWhole rest
  let (fraction, rest) ← readFraction rest
  let (exponent, rest) ← readExponent rest
  some (sign ++ whole ++ fraction ++ exponent, rest)

mutual

def readValue : (fuel : Nat) → List Char → Option (Json × List Char)
  | 0, _ => none
  | fuel + 1, text =>
      match skipGap text with
      | 'n' :: 'u' :: 'l' :: 'l' :: rest => some (.null, rest)
      | 't' :: 'r' :: 'u' :: 'e' :: rest => some (.bool true, rest)
      | 'f' :: 'a' :: 'l' :: 's' :: 'e' :: rest => some (.bool false, rest)
      | '"' :: rest => do
          let (text, rest) ← readString rest
          some (.string text, rest)
      | '[' :: rest =>
          match skipGap rest with
          | ']' :: rest => some (.array [], rest)
          | _ => do
              let (items, rest) ← readItems fuel rest
              some (.array items, rest)
      | '\x7b' :: rest =>
          match skipGap rest with
          | '\x7d' :: rest => some (.object [], rest)
          | _ => do
              let (fields, rest) ← readFields fuel rest
              some (.object fields, rest)
      | rest => do
          let (literal, rest) ← readNumber rest
          some (.number literal, rest)

/-- The items of an array up to its end, at least one. -/
def readItems : (fuel : Nat) → List Char → Option (List Json × List Char)
  | 0, _ => none
  | fuel + 1, text => do
      let (item, rest) ← readValue fuel text
      match skipGap rest with
      | ',' :: rest => do
          let (items, rest) ← readItems fuel rest
          some (item :: items, rest)
      | ']' :: rest => some ([item], rest)
      | _ => none

/-- The fields of an object up to its end, at least one. -/
def readFields : (fuel : Nat) → List Char → Option (List (Option String × Json) × List Char)
  | 0, _ => none
  | fuel + 1, text =>
      match skipGap text with
      | '"' :: rest => do
          let (name, rest) ← readString rest
          match skipGap rest with
          | ':' :: rest => do
              let (value, rest) ← readValue fuel rest
              match skipGap rest with
              | ',' :: rest => do
                  let (fields, rest) ← readFields fuel rest
                  some ((name, value) :: fields, rest)
              | '\x7d' :: rest => some ([(name, value)], rest)
              | _ => none
          | _ => none
      | _ => none

end

def read (text : List Char) : Option Json := do
  let (value, rest) ← readValue (2 * text.length + 2) text
  if (skipGap rest).isEmpty then some value else none

end SourceRecipe.Json
