/-!
# TOML values

Tables keep their fields in the order in which they were first named.  How a table came about
decides what may still be added to it, so every table remembers it.
-/

namespace SourceRecipe

inductive TableKind where
  /-- Its own header opened it; so is the document. -/
  | header
  /-- The header of a table inside it implied it. -/
  | implied
  /-- A dotted key opened it. -/
  | dotted
  /-- It was written in braces, and is complete. -/
  | inline
  deriving DecidableEq

/-- A TOML value.  Dates and times are told apart from other values, not from each other. -/
inductive Toml where
  | string (value : String)
  | integer (value : Int)
  | float (value : Float)
  /-- A number that is written as one and has no value: it is too large, has no digits, or has
  characters other than digits behind an underscore.  It does no harm where no value is asked
  for. -/
  | unvalued
  | bool (value : Bool)
  | time
  | array (items : List Toml)
  /-- The tables that headers in double brackets opened, in order. -/
  | tables (items : List Toml)
  | table (kind : TableKind) (fields : List (String × Toml))

namespace Toml

def empty : Toml := .table .header []

mutual

/-- Whether all numbers in a value have values. -/
def isValued : Toml → Bool
  | .unvalued => false
  | .array items => areValued items
  | .tables items => areValued items
  | .table _ fields => fieldsAreValued fields
  | .string _ | .integer _ | .float _ | .bool _ | .time => true

def areValued : List Toml → Bool
  | [] => true
  | item :: items => isValued item && areValued items

def fieldsAreValued : List (String × Toml) → Bool
  | [] => true
  | (_, value) :: fields => isValued value && fieldsAreValued fields

end

end Toml

end SourceRecipe
