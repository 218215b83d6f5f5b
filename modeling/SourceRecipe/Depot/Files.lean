import SourceRecipe.Dict

/-!
# Files of a revision

A revision holds texts under path names.  Three-way merging looks at each path on its own, where
a missing file counts as a content of its kind: what changed on one side only, or in the same
way on both sides, is taken; anything else is a conflict.
-/

namespace SourceRecipe

abbrev Files := Dict String String

namespace Files

/-- The files with changes applied in order; an empty text removes the path. -/
def applying (files : Files) : List (String × String) → Files
  | [] => files
  | (path, text) :: others =>
      applying (if text.isEmpty then files.erase path else files.put path text) others

def listing (files : Files) : List (String × String) :=
  (sortNames files.keys).filterMap fun path => (files.get? path).map (path, ·)

/-- The content that a path gets from a merge, unless it is in conflict. -/
def mergeContent (base ours theirs : Option String) : Option (Option String) :=
  if ours = theirs ∨ base = theirs then some ours
  else if base = ours then some theirs
  else none

def mergePath (base ours theirs : Files) (path : String) : Option (Option String) :=
  mergeContent (base.get? path) (ours.get? path) (theirs.get? path)

def allPaths (base ours theirs : Files) : List String :=
  sortNames (ours.keys ++ theirs.keys ++ base.keys)

def conflicts (base ours theirs : Files) : List String :=
  (allPaths base ours theirs).filter fun path => (mergePath base ours theirs path).isNone

def merged (base ours theirs : Files) : Files :=
  ⟨(allPaths base ours theirs).filterMap fun path =>
    (mergePath base ours theirs path).join.map (path, ·)⟩

end Files

end SourceRecipe
