import SourceRecipe.FileTree
import SourceRecipe.Recipe.Printer
import SourceRecipe.Recipe.Reading

/-!
# Recipes in files

A recipe read from a file is named by the path in messages.  Writing one makes the directories
around it.
-/

namespace SourceRecipe

inductive RecipeError where
  | unreadable (path : Path) (error : FileError)
  | refused (error : ParseError)
  deriving DecidableEq

def RecipeError.message : RecipeError → String
  | unreadable path error => s!"could not read recipe {path.text}: {error.text}"
  | refused error => error.message

namespace Recipe

def load (files : FileTree) (path : Path) : Except RecipeError Recipe :=
  match files.readText path with
  | .error error => .error (.unreadable path error)
  | .ok text => (read path.text text.toList).mapError .refused

def save (recipe : Recipe) (path : Path) : FileWork FileError Unit := do
  FileWork.makeParents path
  FileWork.writeText path (String.ofList recipe.text)

end Recipe

end SourceRecipe
