import SourceRecipe.Recipe.Basic

/-!
# Pinned trees

A tree is pinned when the revision of every branch is known.  Such a tree still says what the
recipe asked for, and turns into a recipe tree that asks for exactly the revisions found.
-/

namespace SourceRecipe

structure Pinned where
  source : Source
  revision : String
  deriving DecidableEq

/-- What a pinned branch stands for: a place and a revision. -/
def Pinned.key (pinned : Pinned) : String × String :=
  (pinned.source.location, pinned.revision)

def Pinned.exactly (pinned : Pinned) : Source :=
  ⟨pinned.source.location, .revision pinned.revision⟩

def Tree.exactly (tree : Tree Pinned) : Tree Source :=
  tree.map Pinned.exactly

def shortRevision (revision : String) : String :=
  String.ofList (revision.toList.take 12)

end SourceRecipe
