import SourceRecipe.Path
import SourceRecipe.Text.Blank

/-!
# Faults of version control

A call to a version control system fails for one of a few causes.  Causes fall into categories,
and one category, failures of the network, is worth another attempt.
-/

namespace SourceRecipe

open SourceRecipe.Text

inductive FileError where
  | notFound
  | isADirectory
  | notADirectory
  | alreadyExists
  | invalidData
  /-- The path holds a character that paths cannot have. -/
  | invalidPath
  /-- The path or a name in it is too long. -/
  | longName
  deriving DecidableEq

def FileError.text : FileError → String
  | notFound => "no such file or directory"
  | isADirectory => "is a directory"
  | notADirectory => "not a directory"
  | alreadyExists => "file exists"
  | invalidData => "invalid data"
  | invalidPath => "zero character in path"
  | longName => "file name too long"

inductive FaultCategory where
  | network
  | notFound
  | conflict
  | permission
  | cancelled
  | other
  deriving DecidableEq

def FaultCategory.description : FaultCategory → String
  | network => "Network connectivity issue"
  | notFound => "Branch or revision not found"
  | conflict => "Merge conflict"
  | permission => "Permission denied"
  | cancelled => "Cancelled"
  | other => "Unexpected error"

inductive Fault where
  /-- The branch could not be reached. -/
  | network (message : String)
  | branchNotFound (branch : String)
  /-- The branch has no revision that a specifier asks for. -/
  | revisionNotFound (branch specifier : String)
  /-- A merge left conflicts at these paths. -/
  | conflict (branch : String) (paths : List Path)
  | permission (message : String)
  /-- The caller gave up. -/
  | cancelled
  /-- No tree has been checked out there. -/
  | noWorkingTree (path : Path)
  | commandFailed (message stderr : String)
  /-- A program could not be started. -/
  | notStarted (program : Path) (error : FileError)
  | file (error : FileError) (detail : String)
  /-- The pause before the next attempt is no span of time. -/
  | endlessPause
  | other (message : String)
  deriving DecidableEq

namespace Fault

def category : Fault → FaultCategory
  | network _ => .network
  | branchNotFound _ => .notFound
  | revisionNotFound _ _ => .notFound
  | conflict _ _ => .conflict
  | permission _ => .permission
  | cancelled => .cancelled
  | _ => .other

def isRetryable (fault : Fault) : Bool :=
  fault.category = .network

def message : Fault → String
  | network message => s!"network error: {message}"
  | branchNotFound branch => s!"branch not found: {branch}"
  | revisionNotFound branch specifier => s!"revision {specifier} not found in {branch}"
  | conflict branch paths => "merging " ++ branch ++ " conflicted in " ++ Path.listText paths
  | permission message => s!"permission denied: {message}"
  | cancelled => "operation cancelled"
  | noWorkingTree path => s!"no working tree at {path.text}"
  | commandFailed message _ => s!"command failed: {message}"
  | notStarted program error =>
      s!"command failed: failed to execute {program.text}: {error.text}"
  | file _ detail => s!"IO error: {detail}"
  | endlessPause => "the pause before the next attempt does not end"
  | other message => message

def networkPhrases : List String :=
  ["could not resolve host", "connection refused", "connection reset", "timed out",
    "unable to access", "early eof", "the remote end hung up"]

def permissionPhrases : List String := ["permission denied"]

def missingPhrases : List String :=
  ["repository not found", "does not appear to be a git repository", "does not exist"]

/-- Whether one of some phrases, which are all in small letters, occurs in a text when the case
of its letters does not count. -/
def mentions (phrases : List String) (text : List Char) : Bool :=
  phrases.any fun phrase => occursIn phrase.toList (text.map Char.toLower)

def ofGitOutput (stderr : List Char) (branch : String) (directory : Option Path) : Fault :=
  let trimmed := String.ofList (trim stderr)
  if mentions networkPhrases stderr then .network trimmed
  else if mentions permissionPhrases stderr then .permission trimmed
  else if mentions missingPhrases stderr then .branchNotFound branch
  else
    match directory with
    | none => .commandFailed s!"git failed for {branch}" trimmed
    | some path => .commandFailed s!"git failed for {branch} in {path.text}" trimmed

end Fault

end SourceRecipe
