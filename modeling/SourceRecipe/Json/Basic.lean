/-!
# JSON values

Objects keep their fields in order, with repetitions.  A number keeps the text it was written
with, since its meaning depends on what is asked for.  A string whose escapes spell half of a
surrogate pair has no text; it may stand only where its value does not matter.
-/

namespace SourceRecipe

inductive Json where
  | null
  | bool (value : Bool)
  | number (literal : List Char)
  | string (text : Option String)
  | array (items : List Json)
  | object (fields : List (Option String × Json))

def Json.ofText (text : String) : Json :=
  .string (some text)

def Json.ofText? : Option String → Json
  | none => .null
  | some text => .ofText text

def Json.ofNat (n : Nat) : Json :=
  .number (toString n).toList

def Json.ofFields (fields : List (String × Json)) : Json :=
  .object (fields.map fun (name, value) => (some name, value))

end SourceRecipe
