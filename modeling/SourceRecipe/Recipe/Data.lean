import SourceRecipe.Recipe.Basic
import SourceRecipe.Json.Decoding
import SourceRecipe.Json.Printing

/-!
# Recipes as JSON

The form of a recipe in data files: objects with the fields of its header, its base branch and
its instructions, in a fixed order.
-/

namespace SourceRecipe

open SourceRecipe.Time

namespace Specifier

def toJson : Specifier → Json
  | tip => .ofText "Tip"
  | revision id => .ofFields [("RevisionId", .ofText id)]
  | date instant => .ofFields [("Date", .ofText (String.ofList (instant.rfc3339 ['Z'])))]
  | tag name => .ofFields [("Tag", .ofText name)]

def ofJson? (levels : Nat) (json : Json) : Option Specifier := do
  let (_, name, value) ← json.variant? levels
  match name, value with
  | "Tip", value => if Json.isUnit value then some tip else none
  | "RevisionId", some value => value.text?.map revision
  | "Tag", some value => value.text?.map tag
  | "Date", some value => do
      let text ← value.text?
      (Instant.readLoose text.toList).map date
  | _, _ => none

end Specifier

namespace Directive

def toJson : Directive → Json
  | merge => .ofText "Merge"
  | nest location => .ofFields [("Nest", .ofFields [("location", .ofText location)])]

def ofJson? (levels : Nat) (json : Json) : Option Directive := do
  let (levels, name, value) ← json.variant? levels
  match name, value with
  | "Merge", value => if Json.isUnit value then some merge else none
  | "Nest", some value => do
      let (_, record) ← value.record? levels ["location"]
      (record.required "location" Json.text?).map nest
  | _, _ => none

end Directive

def Source.toJson (source : Source) (children : List Json) : Json :=
  .ofFields [("url", .ofText source.location), ("revspec", source.specifier.toJson),
    ("children", .array children)]

def Instructions.toJson : Instructions Source → List Json
  | .done => []
  | .step nickname directive branch inner later =>
      .ofFields [("nickname", .ofText nickname), ("directive", directive.toJson),
        ("branch", branch.toJson inner.toJson)] :: later.toJson

def Tree.toJson (tree : Tree Source) : Json :=
  tree.base.toJson tree.instructions.toJson

def Instructions.ofSteps {β : Type} : List (Step β) → Instructions β
  | [] => .done
  | first :: others =>
      .step first.nickname first.directive first.branch first.inner (ofSteps others)

/-- The tree that data stands for.  The levels left bound the depth of the tree. -/
def Tree.ofJson? : (levels : Nat) → Json → Option (Tree Source)
  | 0, _ => none
  | levels + 1, json => do
      let (_, record) ← json.record? (levels + 1) ["url", "revspec", "children"]
      let location ← record.required "url" Json.text?
      let specifier ← record.required "revspec" (Specifier.ofJson? levels)
      let (inside, items) ← record.required "children" (Json.items? levels)
      let steps ← items.mapM fun item => do
        let (_, record) ← item.record? inside ["nickname", "directive", "branch"]
        let nickname ← record.required "nickname" Json.text?
        let directive ← record.required "directive" (Directive.ofJson? (inside - 1))
        let branch ← record.required "branch" (Tree.ofJson? (levels - 2))
        some (⟨nickname, directive, branch.base, branch.instructions⟩ : Step Source)
      some ⟨⟨location, specifier⟩, Instructions.ofSteps steps⟩
termination_by levels => levels

namespace Recipe

def toJson (recipe : Recipe) : Json :=
  .ofFields [
    ("header", .ofFields [("format", .ofText recipe.header.format),
      ("version_template", .ofText? recipe.header.version)]),
    ("base", recipe.tree.toJson)]

/-- The header that data stands for.  A version may be left out of an object, but not of an
array. -/
def headerOfJson? (levels : Nat) (json : Json) : Option Header := do
  let (_, record) ← json.record? levels ["format", "version_template"]
  let format ← record.required "format" Json.text?
  let version ←
    if record.inOrder then record.required "version_template" (Json.nullable Json.text?)
    else record.withDefault "version_template" none (Json.nullable Json.text?)
  some ⟨format, version⟩

def ofJson? (json : Json) : Option Recipe := do
  let (levels, record) ← json.record? Json.levelLimit ["header", "base"]
  let header ← record.required "header" (headerOfJson? levels)
  let tree ← record.required "base" (Tree.ofJson? levels)
  some ⟨header, tree⟩

def ofJsonText? (text : List Char) : Option Recipe :=
  (Json.read text).bind ofJson?

end Recipe

end SourceRecipe
