import SourceRecipe.Json.Reading
import SourceRecipe.Number.Real

/-!
# Data in JSON values

Readers of the data that a JSON value stands for.  A structure is an object of its named fields
or an array of them in order; an alternative is its name, or an object of its name and its data.
Fields that a structure does not name are passed over.

Structures, arrays and alternatives nest to a limited depth: every reader takes the number of
levels that are left.
-/

namespace SourceRecipe.Json

open SourceRecipe.Text

/-- The number of levels at which data is refused. -/
def levelLimit : Nat := 128

/-- The levels left inside one more structure, if there are any. -/
def enter? : Nat → Option Nat
  | levels + 2 => some (levels + 1)
  | _ => none

structure Record where
  fields : List (String × Json)
  /-- Whether they were told apart by their order. -/
  inOrder : Bool

/-- The fields of an object that a structure names, unless one of them is repeated or some
field has no name. -/
def namedFields (names : List String) :
    List (Option String × Json) → Option (List (String × Json))
  | [] => some []
  | (none, _) :: _ => none
  | (some name, value) :: others => do
      let fields ← namedFields names others
      if name ∈ names then
        if (fields.lookup name).isSome then none else some ((name, value) :: fields)
      else some fields

/-- The structure with these fields that a value spells, and the levels left inside it. -/
def record? (levels : Nat) (names : List String) : Json → Option (Nat × Record)
  | .object fields => do
      let levels ← enter? levels
      let fields ← namedFields names fields
      some (levels, ⟨fields, false⟩)
  | .array items => do
      let levels ← enter? levels
      if items.length ≤ names.length then some (levels, ⟨names.zip items, true⟩) else none
  | _ => none

namespace Record

def required {α : Type} (record : Record) (name : String) (decode : Json → Option α) :
    Option α :=
  (record.fields.lookup name).bind decode

def withDefault {α : Type} (record : Record) (name : String) (default : α)
    (decode : Json → Option α) : Option α :=
  match record.fields.lookup name with
  | none => some default
  | some value => decode value

end Record

def items? (levels : Nat) : Json → Option (Nat × List Json)
  | .array items => (enter? levels).map fun levels => (levels, items)
  | _ => none

/-- The name of an alternative with its data, and the levels left inside it.  A name alone has
no data. -/
def variant? (levels : Nat) : Json → Option (Nat × String × Option Json)
  | .string (some name) => some (levels, name, none)
  | .object [(some name, value)] => (enter? levels).map fun levels => (levels, name, some value)
  | _ => none

/-- Data of an alternative that holds nothing. -/
def isUnit : Option Json → Bool
  | none => true
  | some .null => true
  | _ => false

def text? : Json → Option String
  | .string text => text
  | _ => none

def nullable {α : Type} (decode : Json → Option α) : Json → Option (Option α)
  | .null => some none
  | value => (decode value).map some

def bool? : Json → Option Bool
  | .bool value => some value
  | _ => none

/-- A whole number below a bound, written as digits only. -/
def natBelow? (bound : Nat) : Json → Option Nat
  | .number literal =>
      if literal.all Char.isDigit && decide (digitsValue literal < bound) then
        some (digitsValue literal)
      else none
  | _ => none

structure Literal where
  negative : Bool
  whole : List Char
  /-- The digits after a point. -/
  fraction : Option (List Char)
  exponent : Option Int

def exponentValue : List Char → Int
  | '-' :: digits => -(digitsValue digits : Int)
  | '+' :: digits => digitsValue digits
  | digits => digitsValue digits

def Literal.ofText (literal : List Char) : Literal :=
  let negative := literal.head? == some '-'
  let unsigned := if negative then literal.tail else literal
  let whole := unsigned.takeWhile Char.isDigit
  let rest := unsigned.dropWhile Char.isDigit
  let (fraction, rest) :=
    match rest with
    | '.' :: rest => (some (rest.takeWhile Char.isDigit), rest.dropWhile Char.isDigit)
    | _ => (none, rest)
  ⟨negative, whole, fraction, if rest.isEmpty then none else some (exponentValue rest.tail)⟩

def wordBound : Nat := twoTo 64

/-- Leading digits, up to the first one that would take their value to the bound: the value
after `start`, how many digits were taken, and how many were left. -/
def takeDigits (start : Nat) (digits : List Char) : Nat × Nat × Nat :=
  match digits with
  | [] => (start, 0, 0)
  | c :: others =>
      let next := 10 * start + digitValue c
      if next < wordBound then
        let (value, taken, left) := takeDigits next others
        (value, taken + 1, left)
      else (start, 0, digits.length)

/-- A float times a power of ten.  Powers up to the 308th are applied in one step, greater ones
in steps of the 308th, and a result that is too large is refused. -/
def scale : (fuel : Nat) → Float → Int → Option Float
  | 0, _, _ => none
  | fuel + 1, x, power =>
      if power.natAbs ≤ 308 then
        let factor := Binary64.ofDecimal false 1 power.natAbs
        if 0 ≤ power then
          let product := x * factor
          if product.isInf then none else some product
        else some (x / factor)
      else if x == 0 then some x
      else if 0 ≤ power then none
      else scale fuel (x / Binary64.ofDecimal false 1 308) (power + 308)

/-- The float that a literal stands for: its leading digits as a whole number below the bound,
times a power of ten.  Each of the two steps rounds. -/
def Literal.float? (literal : Literal) : Option Float :=
  let (value, _, dropped) := takeDigits 0 literal.whole
  let signed (x : Float) : Float := if literal.negative then -x else x
  if dropped = 0 ∧ literal.fraction.isNone ∧ literal.exponent.isNone then
    some (signed (UInt64.ofNat value).toFloat)
  else
    let (value, taken, _) := takeDigits value (literal.fraction.getD [])
    let power := (dropped : Int) - taken + literal.exponent.getD 0
    (scale 8 (UInt64.ofNat value).toFloat power).map signed

def float? : Json → Option Float
  | .number literal => (Literal.ofText literal).float?
  | _ => none

end SourceRecipe.Json
