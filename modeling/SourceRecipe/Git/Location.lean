import SourceRecipe.Blake3
import SourceRecipe.Text.Phrase

/-!
# Locations of branches

A location is an address, or an address and the name of a branch after a number sign.  The
mirror of an address has its hash for a name, so that all branches of an address share it.
-/

namespace SourceRecipe.Git

open SourceRecipe.Text

/-- The address and the branch of a location.  The last number sign divides them, unless one of
them would be empty. -/
def split (location : String) : String × Option String :=
  match cutLast? '#' location.toList with
  | some (address, branch) =>
      if address.isEmpty || branch.isEmpty then (location, none)
      else (String.ofList address, some (String.ofList branch))
  | none => (location, none)

def address (location : String) : String := (split location).1

/-- The reference to the branch of a location; without one, what the remote points at. -/
def reference (location : String) : String :=
  match (split location).2 with
  | some branch => s!"refs/heads/{branch}"
  | none => "HEAD"

def mirrorName (address : String) : String :=
  String.ofList (Blake3.hash address.toUTF8.toList)

end SourceRecipe.Git
