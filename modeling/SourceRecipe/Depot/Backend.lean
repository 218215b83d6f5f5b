import SourceRecipe.Backend.Basic
import SourceRecipe.Depot.Basic

/-!
# Depots as version control systems

The calls of a build on a depot.  Every call but the count of revisions fails first when the
branch it names is to fail.  A merge is three-way, over the files of the nearest common
ancestor, and leaves everything as it was when files are in conflict.
-/

namespace SourceRecipe

open SourceRecipe.Time

namespace Depot

abbrev Request (α : Type) := ExceptT Fault (StateM Depot) α

/-- A request that has no answer but a fault, or an answer known already. -/
def Request.ofExcept {α : Type} (answer : Except Fault α) : Request α :=
  fun depot => (answer, depot)

def reach (branch : String) : Request Unit := do
  let depot ← get
  match depot.failures.get? branch with
  | some (left + 1) =>
      set { depot with failures := depot.failures.put branch left }
      throw (.network s!"simulated failure reaching {branch}")
  | _ => pure ()

/-- The revisions of a branch that must be there. -/
def line (depot : Depot) (branch : String) : Except Fault (List String) :=
  match depot.branches.get? branch with
  | some revisions => .ok revisions
  | none => .error (.branchNotFound branch)

/-- A commit that must be there. -/
def stored (depot : Depot) (revision : String) : Except Fault Commit :=
  match depot.history.get? revision with
  | some commit => .ok commit
  | none => .error (.other s!"unknown revision {revision}")

/-- The revision with the greatest time up to an instant, and of several the one latest in the
branch.  `best` is the one found so far, with its time. -/
def newestUpTo (depot : Depot) (limit : Instant) (best : Option (String × Instant)) :
    List String → Except Fault (Option (String × Instant))
  | [] => .ok best
  | revision :: others => do
      let commit ← depot.stored revision
      let beats := match best with
        | none => true
        | some (_, time) => time.atOrBefore commit.time
      depot.newestUpTo limit
        (if commit.time.atOrBefore limit && beats then some (revision, commit.time) else best)
        others

/-- The revision that a specifier means among those of a branch, if there is one. -/
def find (depot : Depot) (branch : String) (revisions : List String) :
    Specifier → Except Fault (Option String)
  | .tip => .ok revisions.getLast?
  | .revision id => .ok (if id ∈ revisions then some id else none)
  | .tag name => .ok (depot.tags.get? (branch, name))
  | .date limit => do return (← depot.newestUpTo limit none revisions).map Prod.fst

def lookup (branch : String) (specifier : Specifier) : Request String := do
  modify fun depot => { depot with lookups := depot.lookups + 1 }
  reach branch
  let depot ← get
  let revisions ← Request.ofExcept (depot.line branch)
  match ← Request.ofExcept (depot.find branch revisions specifier) with
  | some revision => return revision
  | none => throw (.revisionNotFound branch specifier.sought)

def checkout (branch revision : String) (target : Path) : Request Unit := do
  reach branch
  let depot ← get
  if (depot.tree? target).isSome then
    throw (.other s!"{target.text} already has a working tree")
  let revisions ← Request.ofExcept (depot.line branch)
  if revision ∉ revisions then
    throw (.revisionNotFound branch (Specifier.text (.revision revision)))
  let commit ← Request.ofExcept (depot.stored revision)
  set { depot with trees := depot.trees.put target.parts ⟨branch, revision, commit.files⟩ }

/-- The files that two revisions started from; none if they have no common ancestor. -/
def baseFiles (depot : Depot) (ours theirs : String) : Request Files :=
  match depot.history.mergeBase? ours theirs with
  | none => pure .empty
  | some common => Request.ofExcept ((depot.stored common).map Commit.files)

def mergeId (number : Nat) : String := s!"merge-{number}"

def commitMerge (path : Path) (tree : WorkingTree) (revision message : String)
    (files : Files) : Request Unit := do
  modify fun depot => { depot with merges := depot.merges + 1 }
  let depot ← get
  let head ← Request.ofExcept (depot.stored tree.head)
  let theirs ← Request.ofExcept (depot.stored revision)
  let id := mergeId depot.merges
  set { depot with
    history := depot.history.put id
      ⟨[tree.head, revision], head.time.later theirs.time, message, files⟩
    trees := depot.trees.put path.parts ⟨tree.branch, id, files⟩ }

def merge (path : Path) (branch revision message : String) : Request MergeOutcome := do
  reach branch
  let depot ← get
  match depot.tree? path with
  | none => throw (.noWorkingTree path)
  | some tree =>
      let theirs ← Request.ofExcept (depot.stored revision)
      if revision ∈ depot.history.ancestors tree.head then return .upToDate
      let base ← depot.baseFiles tree.head revision
      let conflicts := Files.conflicts base tree.files theirs.files
      if !conflicts.isEmpty then throw (.conflict branch (conflicts.map Path.mk))
      commitMerge path tree revision message (Files.merged base tree.files theirs.files)
      return .merged

def revno (branch revision : String) : Request (Option Nat) := do
  let revisions ← Request.ofExcept ((← get).line branch)
  return (revisions.idxOf? revision).map (· + 1)

/-- A request as a call, which is not made when the token has fired. -/
def Request.call {α : Type} (token : Token) (request : Request α) : Call Depot α := do
  Call.check token
  fun world =>
    let (answer, depot) := request world.store
    (answer, world.withStore depot)

def backend : Backend Depot where
  lookup token branch specifier := (lookup branch specifier).call token
  checkout token branch revision target := (checkout branch revision target).call token
  merge token tree branch revision message := (merge tree branch revision message).call token
  revno token branch revision := (revno branch revision).call token

end Depot

end SourceRecipe
