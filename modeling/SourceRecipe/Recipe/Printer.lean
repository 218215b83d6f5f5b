import SourceRecipe.Recipe.Basic

/-!
# Recipe text

A recipe is written as a header line, a line for the base branch, and a line for every
instruction, indented by two spaces for each level.  `Recipe.lines` is that list of lines;
`Recipe.text` puts them after each other.
-/

namespace SourceRecipe

def Recipe.tool : String := "git-build-recipe"

def Header.words (header : Header) : List (List Char) :=
  [Recipe.tool.toList, "format".toList, header.format.toList] ++
    match header.version with
    | none => []
    | some template => ["deb-version".toList, template.toList]

def Header.line (header : Header) : List Char :=
  '#' :: header.words.flatMap (' ' :: ·)

def Source.specifierPart (source : Source) : List Char :=
  match source.specifier.token? with
  | none => []
  | some token => ' ' :: token

def Source.line (source : Source) : List Char :=
  source.location.toList ++ source.specifierPart

def Directive.locationPart : Directive → List Char
  | .merge => []
  | .nest location => ' ' :: location.toList

def Entry.line (entry : Entry Source) : List Char :=
  List.replicate (2 * entry.depth) ' ' ++ entry.directive.keyword.toList ++
    ' ' :: entry.nickname.toList ++ ' ' :: entry.branch.location.toList ++
    entry.directive.locationPart ++ entry.branch.specifierPart

def Recipe.lines (recipe : Recipe) : List (List Char) :=
  recipe.header.line :: recipe.tree.base.line ::
    (recipe.tree.instructions.listing 0).map Entry.line

def Recipe.text (recipe : Recipe) : List Char :=
  recipe.lines.flatMap (· ++ ['\n'])

end SourceRecipe
