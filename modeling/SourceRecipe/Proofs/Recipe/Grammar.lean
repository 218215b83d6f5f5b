import Mathlib.Data.List.Forall2
import SourceRecipe.Proofs.Text.Words
import SourceRecipe.Recipe.Reading

/-!
# The grammar of recipe text

The lines of a recipe, said without the functions that read them.  The first line is the header.
Of the others, those that hold blanks only or begin with a number sign say nothing; the first one
that remains names the base branch, and every further one is an instruction, indented by two spaces
for each level and by at most one level more than the instruction before it.
-/

namespace SourceRecipe

open SourceRecipe.Text

/-- The words after the location of a branch: none when its tip is meant, or one token. -/
inductive Specifier.Spells : List (List Char) → Specifier → Prop where
  | tip : Spells [] .tip
  | token {token : List Char} {specifier : Specifier}
      (read : Specifier.read token = .ok specifier) : Spells [token] specifier

/-- A number without or with a fraction, whose nearest floating point number is not above the one
nearest to 0.4. -/
inductive Header.IsFormat : List Char → Prop where
  | whole {digits : List Char} (numeral : isNumeral digits = true)
      (known : Binary64.nearestBits (digitsValue digits) 1 ≤ Binary64.nearestBits 4 10) :
      IsFormat digits
  | fraction {digits places : List Char} (numeral : isNumeral digits = true)
      (fraction : isNumeral places = true)
      (known : Binary64.nearestBits (digitsValue (digits ++ places)) (tenTo places.length) ≤
        Binary64.nearestBits 4 10) :
      IsFormat (digits ++ '.' :: places)

inductive Header.Spells : List Char → Header → Prop where
  | plain {gap rest : List Char} {tool format : String} (blank : AreBlanks gap)
      (known : tool ∈ ["git-build-recipe", "bzr-builder"])
      (isFormat : Header.IsFormat format.toList)
      (spaced : Spaced ["format".toList, format.toList] rest) :
      Spells ('#' :: (gap ++ (tool.toList ++ rest))) ⟨format, none⟩
  | versioned {gap rest : List Char} {tool format template : String} (blank : AreBlanks gap)
      (known : tool ∈ ["git-build-recipe", "bzr-builder"])
      (isFormat : Header.IsFormat format.toList)
      (spaced : Spaced
        ["format".toList, format.toList, "deb-version".toList, template.toList] rest) :
      Spells ('#' :: (gap ++ (tool.toList ++ rest))) ⟨format, some template⟩

inductive Source.Spells : List Char → Source → Prop where
  | base {location : String} {specifier : Specifier} {words : List (List Char)} {rest : List Char}
      (isWord : IsWord location.toList) (spaced : Spaced words rest)
      (spelled : Specifier.Spells words specifier) :
      Spells (location.toList ++ rest) ⟨location, specifier⟩

inductive Entry.Spells : List Char → Entry Source → Prop where
  | merge {depth : Nat} {nickname location : String} {specifier : Specifier}
      {words : List (List Char)} {rest : List Char}
      (spaced : Spaced (nickname.toList :: location.toList :: words) rest)
      (spelled : Specifier.Spells words specifier) :
      Spells (List.replicate (2 * depth) ' ' ++ ("merge".toList ++ rest))
        ⟨depth, nickname, .merge, ⟨location, specifier⟩⟩
  | nest {depth : Nat} {nickname location place : String} {specifier : Specifier}
      {words : List (List Char)} {rest : List Char}
      (spaced : Spaced (nickname.toList :: location.toList :: place.toList :: words) rest)
      (spelled : Specifier.Spells words specifier) :
      Spells (List.replicate (2 * depth) ' ' ++ ("nest".toList ++ rest))
        ⟨depth, nickname, .nest place, ⟨location, specifier⟩⟩

/-- Depths that begin at the top and go down one level at a time; they may go up any number of
levels. -/
def Climbs (depths : List Nat) : Prop :=
  (∀ depth ∈ depths.head?, depth = 0) ∧ depths.IsChain fun above below => below ≤ above + 1

inductive Recipe.Spells : List (List Char) → Header → Source → List (Entry Source) → Prop where
  | recipe {first baseLine : List Char} {lines others : List (List Char)} {header : Header}
      {base : Source} {entries : List (Entry Source)} (headerLine : Header.Spells first header)
      (significant : (lines.filter fun line => !Line.isSilent line) = baseLine :: others)
      (baseSpelled : Source.Spells baseLine base)
      (entriesSpelled : List.Forall₂ Entry.Spells others entries)
      (climbs : Climbs (entries.map Entry.depth)) :
      Spells (first :: lines) header base entries

end SourceRecipe
