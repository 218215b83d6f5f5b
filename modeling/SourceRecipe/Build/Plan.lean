import SourceRecipe.Build.Operation

/-!
# Plans

A pinned tree is laid out as a list of operations, in the order of recipe text.  The base is
checked out at the build root.  A merge goes into the tree of the branch it stands under, a
nest makes a tree at its location below that tree, and the instructions under either apply to
the tree it went to.

A plan is refused when a location names no directory inside the tree around it, or when two
nests come to the same tree.
-/

namespace SourceRecipe

/-- The names from the build root to a tree; none for the root tree. -/
abbrev TreePath := List String

inductive LocationFlaw where
  | leavesParent
  | absolute
  | isParent
  deriving DecidableEq

def LocationFlaw.text : LocationFlaw → String
  | leavesParent => "location leaves the parent tree"
  | absolute => "location must be relative"
  | isParent => "location is the parent tree itself"

inductive PlanError where
  /-- Two nests come to the same tree. -/
  | duplicateNest (location : String) (first : String) (second : String)
  /-- A location names no directory inside the tree around it. -/
  | malformedNest (nickname : String) (location : String) (flaw : LocationFlaw)
  deriving DecidableEq

def PlanError.message : PlanError → String
  | duplicateNest location first second =>
      s!"nest location '{location}' is used by both '{first}' and '{second}'"
  | malformedNest nickname location flaw =>
      s!"malformed nesting of '{nickname}' at '{location}': {flaw.text}"

namespace Plan

/-- The names that the parts of a location spell, up to the first part that is not allowed. -/
def namesOf : List PathPart → Except LocationFlaw (List String)
  | [] => .ok []
  | .name text :: others => (namesOf others).map (text :: ·)
  | .here :: others => namesOf others
  | .up :: _ => .error .leavesParent
  | .root :: _ => .error .absolute

/-- The names that a location spells, at least one. -/
def locationNames (location : String) : Except LocationFlaw (List String) :=
  match namesOf (Path.mk location).parts with
  | .error flaw => .error flaw
  | .ok [] => .error .isParent
  | .ok names => .ok names

/-- The trees made by nests so far, with the nickname of the nest. -/
abbrev Nests := List (TreePath × String)

/-- The operations of a block whose own instructions stand at `depth` and apply to the tree at
`here`, and the nests known after them.  `ancestors` are the branches from the base down to the
one the block stands under. -/
def ofBlock (ancestors : List (String × String)) (here : TreePath) (depth : Nat) (nests : Nests) :
    Instructions Pinned → Except PlanError (List Operation × Nests)
  | .done => .ok ([], nests)
  | .step nickname .merge branch inner later => do
      let operation : Operation :=
        ⟨.merge nickname (ancestors.contains branch.key), branch.source.location, branch.revision,
          Path.ofNames here, depth⟩
      let (under, nests) ← ofBlock (branch.key :: ancestors) here (depth + 1) nests inner
      let (after, nests) ← ofBlock ancestors here depth nests later
      .ok (operation :: (under ++ after), nests)
  | .step nickname (.nest location) branch inner later => do
      match locationNames location with
      | .error flaw => .error (.malformedNest nickname location flaw)
      | .ok names =>
          let tree := here ++ names
          match nests.lookup tree with
          | some first => .error (.duplicateNest (Path.ofNames tree).text first nickname)
          | none =>
              let operation : Operation :=
                ⟨.nest nickname location, branch.source.location, branch.revision,
                  Path.ofNames tree, depth⟩
              let (under, nests) ←
                ofBlock (branch.key :: ancestors) tree (depth + 1) ((tree, nickname) :: nests) inner
              let (after, nests) ← ofBlock ancestors here depth nests later
              .ok (operation :: (under ++ after), nests)

def ofTree (tree : Tree Pinned) : Except PlanError (List Operation) := do
  let root : Operation :=
    ⟨.checkout, tree.base.source.location, tree.base.revision, Path.ofNames [], 0⟩
  let (operations, _) ← ofBlock [tree.base.key] [] 0 [] tree.instructions
  .ok (root :: operations)

end Plan

end SourceRecipe
