/-!
# Data formats

A format for data has values, and says which data a value stands for.  What is read in the same
way from several formats is written once, for any format.
-/

namespace SourceRecipe

structure DataFormat (ν : Type) where
  /-- The fields of a structure with these names, in order, that a value spells. -/
  fields? : List String → ν → Option (List (String × ν))
  text? : ν → Option String
  /-- A whole number below a bound. -/
  natBelow? : Nat → ν → Option Nat
  float? : ν → Option Float
  /-- Data that may be absent. -/
  nullable : {α : Type} → (ν → Option α) → ν → Option (Option α)

def fieldOr {ν α : Type} (fields : List (String × ν)) (name : String) (default : α)
    (decode : ν → Option α) : Option α :=
  match fields.lookup name with
  | none => some default
  | some value => decode value

end SourceRecipe
