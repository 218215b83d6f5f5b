import SourceRecipe.Git.Mirror

/-!
# Git as a version control system

The calls of a build as runs of `git` in mirrors and working trees.
-/

namespace SourceRecipe.Git

open SourceRecipe.Time

variable {ε : Type}

/-- The full id of the commit that a name stands for in a mirror, if there is one. -/
def commitId? (shell : Shell ε) (options : Options) (token : Token) (mirror : Path)
    (name : String) : Call (Mirrors ε) (Option String) := do
  let reply ← run shell options token (some mirror)
    ["rev-parse", "--verify", "--quiet", name ++ "^\x7bcommit\x7d"]
  return if reply.succeeded && !reply.word.isEmpty then some reply.word else none

def isAncestor (shell : Shell ε) (options : Options) (token : Token) (directory : Path)
    (ancestor descendant : String) : Call (Mirrors ε) Bool := do
  let reply ← run shell options token (some directory)
    ["merge-base", "--is-ancestor", ancestor, descendant]
  match reply.code with
  | 0 => return true
  | 1 => return false
  | _ =>
      throw (.commandFailed s!"merge-base failed in {directory.text}"
        (String.ofList (Text.trim reply.errorText)))

def tipIn (shell : Shell ε) (options : Options) (token : Token) (mirror : Path)
    (location : String) : Call (Mirrors ε) String := do
  match ← commitId? shell options token mirror (reference location) with
  | some id => return id
  | none => throw (.branchNotFound location)

def findRevision (shell : Shell ε) (options : Options) (token : Token) (mirror : Path)
    (location id : String) : Call (Mirrors ε) (Option String) := do
  let tip ← tipIn shell options token mirror location
  match ← commitId? shell options token mirror id with
  | none => return none
  | some full =>
      let known ← isAncestor shell options token mirror full tip
      return if known then some full else none

def findDate (shell : Shell ε) (options : Options) (token : Token) (mirror : Path)
    (location : String) (limit : Instant) : Call (Mirrors ε) (Option String) := do
  let tip ← tipIn shell options token mirror location
  let reply ← runChecked shell options token location (some mirror)
    ["rev-list", "-1", "--date-order", s!"--before={limit.second}", tip]
  return if reply.word.isEmpty then none else some reply.word

def findIn (shell : Shell ε) (options : Options) (token : Token) (mirror : Path)
    (location : String) : Specifier → Call (Mirrors ε) (Option String)
  | .tip => do return some (← tipIn shell options token mirror location)
  | .revision id => findRevision shell options token mirror location id
  | .tag name => commitId? shell options token mirror s!"refs/tags/{name}"
  | .date limit => findDate shell options token mirror location limit

def lookup (shell : Shell ε) (options : Options) (token : Token) (location : String)
    (specifier : Specifier) : Call (Mirrors ε) String := do
  let mirror ← freshMirror shell options token location
  match ← findIn shell options token mirror location specifier with
  | some id => return id
  | none => throw (.revisionNotFound location specifier.sought)

def needEmpty (target : Path) : Call (Mirrors ε) Unit := do
  let files := (← get).files
  if files.has target then
    match files.listsAny target with
    | .error error => throw (fileFault error)
    | .ok true => throw (.other s!"{target.text} exists and is not empty")
    | .ok false => pure ()

def checkout (shell : Shell ε) (options : Options) (token : Token) (location revision : String)
    (target : Path) : Call (Mirrors ε) Unit := do
  needEmpty target
  let mirror ← cachedMirror shell options token location
  let _ ← runChecked shell options token location none
    ["clone", "--quiet", "--no-checkout", mirror.text, target.text]
  let _ ← runChecked shell options token location (some target)
    ["checkout", "--quiet", "--detach", revision]

def mergeArguments (options : Options) (revision message : String) : List String :=
  ["-c", s!"user.name={options.committerName}", "-c", s!"user.email={options.committerEmail}",
    "merge", "--quiet", "--no-ff", "--no-edit", "--allow-unrelated-histories", "-m", message,
    revision]

def conflictsIn (shell : Shell ε) (options : Options) (token : Token) (tree : Path) :
    Call (Mirrors ε) (List Path) := do
  let reply ← run shell options token (some tree) ["diff", "--name-only", "--diff-filter=U"]
  return reply.fullLines.map Path.mk

/-- Merges a revision into a working tree.  A merge that fails is undone. -/
def merge (shell : Shell ε) (options : Options) (token : Token) (tree : Path)
    (location revision message : String) : Call (Mirrors ε) MergeOutcome := do
  if !(← get).files.has (tree.join ⟨".git"⟩) then throw (.noWorkingTree tree)
  let mirror ← cachedMirror shell options token location
  let _ ← runChecked shell options token location (some tree)
    ["fetch", "--quiet", "--no-tags", mirror.text,
      s!"+refs/*:refs/recipe/{mirrorName (address location)}/*"]
  if ← isAncestor shell options token tree revision "HEAD" then return .upToDate
  let reply ← run shell options token (some tree) (mergeArguments options revision message)
  if reply.succeeded then return .merged
  let paths ← conflictsIn shell options token tree
  let _ ← run shell options token (some tree) ["merge", "--abort"]
  if paths.isEmpty then
    throw (.ofGitOutput reply.errorText location (some tree))
  throw (.conflict location paths)

/-- The number of a revision: how many there are on its line of first parents. -/
def revno (shell : Shell ε) (options : Options) (token : Token) (location revision : String) :
    Call (Mirrors ε) (Option Nat) := do
  let mirror ← cachedMirror shell options token location
  let reply ← run shell options token (some mirror)
    ["rev-list", "--count", "--first-parent", revision]
  return if reply.succeeded then reply.number? else none

def backend (shell : Shell ε) (options : Options) : Backend (Mirrors ε) where
  lookup := lookup shell options
  checkout := checkout shell options
  merge := merge shell options
  revno := revno shell options

end SourceRecipe.Git
