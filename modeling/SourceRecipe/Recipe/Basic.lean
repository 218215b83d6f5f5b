import SourceRecipe.Specifier
import SourceRecipe.Tree

/-!
# Recipes

A recipe is a header and a tree of branches, each with the specifier of the revision to use.
Two recipes have the same shape when they differ in specifiers and headers only.
-/

namespace SourceRecipe

/-- A branch as a recipe names it: where it lives and which revision to use. -/
structure Source where
  location : String
  specifier : Specifier
  deriving DecidableEq

/-- The first line of a recipe: the format it is written in, and the template of the version
that a build from it gets. -/
structure Header where
  format : String
  version : Option String
  deriving DecidableEq

/-- The newest format that is read, and the one that new recipes are written in. -/
def Header.newestFormat : String := "0.4"

structure Recipe where
  header : Header
  tree : Tree Source
  deriving DecidableEq

/-- Whether two blocks agree in everything but their specifiers. -/
def Instructions.sameShape : Instructions Source → Instructions Source → Bool
  | .done, .done => true
  | .step nickname directive branch inner later, .step nickname' directive' branch' inner' later' =>
      nickname == nickname' && decide (directive = directive') &&
        branch.location == branch'.location && inner.sameShape inner' && later.sameShape later'
  | _, _ => false

def Tree.sameShape (a b : Tree Source) : Bool :=
  a.base.location == b.base.location && a.instructions.sameShape b.instructions

def Source.sameRevision (a b : Source) : Bool :=
  a.specifier.revision?.isSome && a.specifier.revision? == b.specifier.revision?

/-- Whether two blocks name the same revision ids, as far as both go. -/
def Instructions.sameRevisions : Instructions Source → Instructions Source → Bool
  | .step _ _ branch inner later, .step _ _ branch' inner' later' =>
      branch.sameRevision branch' && inner.sameRevisions inner' && later.sameRevisions later'
  | _, _ => true

def Tree.sameRevisions (a b : Tree Source) : Bool :=
  a.base.sameRevision b.base && a.instructions.sameRevisions b.instructions

end SourceRecipe
