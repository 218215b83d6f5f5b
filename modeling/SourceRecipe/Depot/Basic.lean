import SourceRecipe.Depot.History
import SourceRecipe.Path

/-!
# Depots

A depot keeps all history in memory: commits, the branches with their revisions from the oldest
to the newest, tags, and the working trees checked out from it.  Calls on it can be made to
fail a number of times, as if the network had failed.
-/

namespace SourceRecipe

open SourceRecipe.Time

structure WorkingTree where
  branch : String
  head : String
  files : Files
  deriving DecidableEq

structure Depot where
  history : History
  /-- The revisions of each branch, oldest first. -/
  branches : Dict String (List String)
  /-- Revisions by branch and tag. -/
  tags : Dict (String × String) String
  /-- Working trees by the parts of their paths. -/
  trees : Dict (List PathPart) WorkingTree
  /-- How many calls on a branch are still to fail. -/
  failures : Dict String Nat
  /-- The number of merges committed. -/
  merges : Nat
  /-- The number of revisions looked up. -/
  lookups : Nat
  deriving DecidableEq

namespace Depot

def empty : Depot := ⟨.empty, .empty, .empty, .empty, .empty, 0, 0⟩

/-- The revisions of a branch; a branch that is not there has none. -/
def revisions (depot : Depot) (branch : String) : List String :=
  (depot.branches.get? branch).getD []

def filesOf (depot : Depot) (revision : String) : Files :=
  match depot.history.get? revision with
  | none => .empty
  | some commit => commit.files

/-- The depot with a commit added to a branch: its files are those of the newest revision of
the branch with changes applied. -/
def commit (depot : Depot) (branch revision : String) (time : Instant)
    (changes : List (String × String)) : Depot :=
  let earlier := depot.revisions branch
  let files : Files := match earlier.getLast? with
    | none => .empty
    | some newest => depot.filesOf newest
  { depot with
    history := depot.history.put revision
      ⟨earlier.getLast?.toList, time, s!"commit {revision}", files.applying changes⟩
    branches := depot.branches.put branch (earlier ++ [revision]) }

def branchFrom (depot : Depot) (branch source : String) : Depot :=
  { depot with branches := depot.branches.put branch (depot.revisions source) }

def setTag (depot : Depot) (branch tag revision : String) : Depot :=
  { depot with tags := depot.tags.put (branch, tag) revision }

/-- The depot whose next calls on a branch fail, as many as given. -/
def failTimes (depot : Depot) (branch : String) (times : Nat) : Depot :=
  { depot with failures := depot.failures.put branch times }

def tree? (depot : Depot) (path : Path) : Option WorkingTree :=
  depot.trees.get? path.parts

def message? (depot : Depot) (revision : String) : Option String :=
  (depot.history.get? revision).map Commit.message

end Depot

end SourceRecipe
