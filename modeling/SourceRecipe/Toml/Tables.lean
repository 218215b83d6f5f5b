import SourceRecipe.Toml.Basic

/-!
# Building TOML tables

A document is built by adding keys and opening tables.  Both go down a path of names from a
table; names that are missing on the way become tables, and a table takes a name only once.
-/

namespace SourceRecipe.Toml

/-- The fields with the value of a name changed; `change` is given the value, if there is one. -/
def change (name : String) (update : Option Toml → Option Toml) :
    List (String × Toml) → Option (List (String × Toml))
  | [] => (update none).map fun value => [(name, value)]
  | (other, value) :: fields =>
      if other = name then (update (some value)).map fun value => (other, value) :: fields
      else (change name update fields).map ((other, value) :: ·)

def changeLast (update : Toml → Option Toml) : List Toml → Option (List Toml)
  | [] => none
  | [last] => (update last).map ([·])
  | first :: others => (changeLast update others).map (first :: ·)

/-- The value with the table at a path changed.  Dotted keys may not lead through tables that
have a header, and make an implied table on their way one of their own; nothing leads through
values or through tables in braces.  A path into tables in double brackets leads to the last of
them. -/
def changeAt (dotted : Bool)
    (update : TableKind → List (String × Toml) → Option (List (String × Toml))) :
    List String → Toml → Option Toml
  | [], .table kind fields => (update kind fields).map (.table kind)
  | [], _ => none
  | name :: path, .table kind fields =>
      let descend : Option Toml → Option Toml
        | none => changeAt dotted update path
            (.table (if dotted then .dotted else .implied) [])
        | some (.tables items) => (changeLast (changeAt dotted update path) items).map .tables
        | some (.table .inline _) => none
        | some (.table .header fields) =>
            if dotted then none else changeAt dotted update path (.table .header fields)
        | some (.table .implied fields) => changeAt dotted update path
            (.table (if dotted then .dotted else .implied) fields)
        | some (.table .dotted fields) => changeAt dotted update path (.table .dotted fields)
        | some _ => none
      (change name descend fields).map (.table kind)
  | _ :: _, _ => none

def ifFree (value : Toml) : Option Toml → Option Toml
  | none => some value
  | some _ => none

/-- The table with a value at a dotted key.  The table that the key leads to must itself come
from dotted keys, unless it is the starting one. -/
def addKey (path : List String) (name : String) (value : Toml) (table : Toml) : Option Toml :=
  changeAt true
    (fun kind fields =>
      if kind = .dotted ↔ path ≠ [] then change name (ifFree value) fields else none)
    path table

def openTable : Option Toml → Option Toml
  | none => some (.table .header [])
  | some (.table .implied fields) => some (.table .header fields)
  | some _ => none

def openItem : Option Toml → Option Toml
  | none => some (.tables [.table .header []])
  | some (.tables items) => some (.tables (items ++ [.table .header []]))
  | some _ => none

/-- The document with a table opened at a path; `many` tells the headers in double brackets. -/
def openAt (many : Bool) (path : List String) (name : String) (document : Toml) : Option Toml :=
  changeAt false (fun _ => change name (if many then openItem else openTable)) path document

/-- The document with a value at a key below the path of the last header. -/
def addBelow (section? : Option (List String × String)) (path : List String) (name : String)
    (added : Toml) (document : Toml) : Option Toml :=
  match section? with
  | none => addKey path name added document
  | some (sectionPath, sectionName) =>
      changeAt false
        (fun _ => change sectionName fun
          | some (.tables items) => (changeLast (addKey path name added) items).map .tables
          | some value => addKey path name added value
          | none => none)
        sectionPath document

end SourceRecipe.Toml
