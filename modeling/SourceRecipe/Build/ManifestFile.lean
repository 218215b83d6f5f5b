import SourceRecipe.Build.Manifest
import SourceRecipe.Recipe.File

/-!
# Manifests in files

A manifest is kept as the text of the recipe it describes.
-/

namespace SourceRecipe

def Manifest.save (manifest : Manifest) (path : Path) : FileWork FileError Unit :=
  match manifest.recipe? with
  | none => throw .invalidData
  | some recipe => recipe.save path

end SourceRecipe
