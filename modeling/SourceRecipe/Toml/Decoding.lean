import SourceRecipe.DataFormat
import SourceRecipe.Number.Real
import SourceRecipe.Toml.Basic

/-!
# Data in TOML values

A structure is a table of its named fields or an array of them in order.  Other fields of the
table say nothing, but their numbers must have values; further items of the array need not even
that.  A time is a structure too, whose one field has a name that nothing else has.
-/

namespace SourceRecipe.Toml

def fields? (names : List String) : Toml → Option (List (String × Toml))
  | .table _ fields =>
      if fieldsAreValued (fields.filter fun field => !names.contains field.1) then some fields
      else none
  | .array items => some (names.zip items)
  | .tables items => some (names.zip items)
  | .time => some []
  | _ => none

def text? : Toml → Option String
  | .string value => some value
  | _ => none

def natBelow? (bound : Nat) : Toml → Option Nat
  | .integer n => if 0 ≤ n ∧ n < bound then some n.toNat else none
  | _ => none

/-- A float, also written as an integer that fits in 64 bits. -/
def float? : Toml → Option Float
  | .float x => some x
  | .integer n =>
      if 0 ≤ n ∧ n < twoTo 64 then some (Binary64.ofNat n.toNat)
      else if -(twoTo 63 : Int) ≤ n ∧ n < 0 then some (-Binary64.ofNat n.natAbs)
      else none
  | _ => none

/-- The data that TOML values stand for.  There is no value for what is absent. -/
def format : DataFormat Toml where
  fields? := fields?
  text? := text?
  natBelow? := natBelow?
  float? := float?
  nullable decode value := (decode value).map some

end SourceRecipe.Toml
