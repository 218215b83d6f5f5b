import SourceRecipe.Json.Basic
import SourceRecipe.Text.Digits

/-!
# Writing JSON

Values are written on one line without spaces, or spread over lines with two spaces for each
level.
-/

namespace SourceRecipe.Json

open SourceRecipe.Text

/-- A character inside a string: quotes, backslashes and control characters are escaped. -/
def charText (c : Char) : List Char :=
  if c = '"' then ['\\', '"']
  else if c = '\\' then ['\\', '\\']
  else if c = '\x08' then ['\\', 'b']
  else if c = '\x0c' then ['\\', 'f']
  else if c = '\n' then ['\\', 'n']
  else if c = '\r' then ['\\', 'r']
  else if c = '\t' then ['\\', 't']
  else if c.toNat < 0x20 then '\\' :: 'u' :: hexPadded 4 c.toNat
  else [c]

def quoted (text : Option String) : List Char :=
  '"' :: (text.getD "").toList.flatMap charText ++ ['"']

structure Layout where
  /-- What goes before a part, and before the closing bracket, at a level. -/
  newline : Nat → List Char
  /-- What goes between the name and the value of a field. -/
  colon : List Char

def compact : Layout := ⟨fun _ => [], [':']⟩

def spread : Layout := ⟨fun level => '\n' :: List.replicate (2 * level) ' ', [':', ' ']⟩

mutual

def textAt (layout : Layout) (level : Nat) : Json → List Char
  | .null => "null".toList
  | .bool true => "true".toList
  | .bool false => "false".toList
  | .number literal => literal
  | .string text => quoted text
  | .array [] => ['[', ']']
  | .array (item :: items) =>
      '[' :: layout.newline (level + 1) ++ textAt layout (level + 1) item ++
        itemsText layout (level + 1) items ++ layout.newline level ++ [']']
  | .object [] => ['\x7b', '\x7d']
  | .object ((name, value) :: fields) =>
      '\x7b' :: layout.newline (level + 1) ++ quoted name ++ layout.colon ++
        textAt layout (level + 1) value ++ fieldsText layout (level + 1) fields ++
        layout.newline level ++ ['\x7d']

/-- The items of an array after the first one. -/
def itemsText (layout : Layout) (level : Nat) : List Json → List Char
  | [] => []
  | item :: items =>
      ',' :: layout.newline level ++ textAt layout level item ++ itemsText layout level items

/-- The fields of an object after the first one. -/
def fieldsText (layout : Layout) (level : Nat) : List (Option String × Json) → List Char
  | [] => []
  | (name, value) :: fields =>
      ',' :: layout.newline level ++ quoted name ++ layout.colon ++ textAt layout level value ++
        fieldsText layout level fields

end

def text (value : Json) : List Char :=
  textAt compact 0 value

def spreadText (value : Json) : List Char :=
  textAt spread 0 value

end SourceRecipe.Json
