/-!
# Trees of branches

A recipe names a base branch and the branches that are merged into it or nested below it, each
of which may carry instructions of its own.  The same tree shape serves before and after
revisions are known, so it is a type over whatever is said of a branch.

The instructions under one branch form a block.  `Instructions.listing` views a block as the
list of its lines with their depths, in the order of recipe text; `Tree.attach` adds what such a
list spells to a tree.
-/

namespace SourceRecipe

/-- How a branch is combined with the branch it stands under. -/
inductive Directive where
  /-- Its history is merged into the tree. -/
  | merge
  /-- It is checked out on its own at a place below the tree. -/
  | nest (location : String)
  deriving DecidableEq

def Directive.keyword : Directive → String
  | merge => "merge"
  | nest _ => "nest"

def Directive.location? : Directive → Option String
  | merge => none
  | nest location => some location

/-- A block of instructions, in the order in which they are declared. -/
inductive Instructions (β : Type) where
  /-- The end of the block. -/
  | done
  /-- An instruction on `branch`, the block `inner` under it, and the block that goes on
  after it. -/
  | step (nickname : String) (directive : Directive) (branch : β) (inner : Instructions β)
      (later : Instructions β)
  deriving DecidableEq

/-- A base branch and the instructions under it. -/
structure Tree (β : Type) where
  base : β
  instructions : Instructions β
  deriving DecidableEq

/-- One line of a block: an instruction at its depth. -/
structure Entry (β : Type) where
  depth : Nat
  nickname : String
  directive : Directive
  branch : β
  deriving DecidableEq

/-- An instruction with whatever already stands under it. -/
structure Step (β : Type) where
  nickname : String
  directive : Directive
  branch : β
  inner : Instructions β
  deriving DecidableEq

def Step.tree {β : Type} (step : Step β) : Tree β :=
  ⟨step.branch, step.inner⟩

def Step.block {β : Type} (step : Step β) : Instructions β :=
  .step step.nickname step.directive step.branch step.inner .done

namespace Instructions

variable {β γ : Type}

def append : Instructions β → Instructions β → Instructions β
  | done, block => block
  | step nickname directive branch inner later, block =>
      step nickname directive branch inner (later.append block)

def map (f : β → γ) : Instructions β → Instructions γ
  | done => done
  | step nickname directive branch inner later =>
      step nickname directive (f branch) (inner.map f) (later.map f)

def count : Instructions β → Nat
  | done => 0
  | step _ _ _ inner later => 1 + inner.count + later.count

/-- The lines of a block whose own instructions stand at `depth`. -/
def listing (depth : Nat) : Instructions β → List (Entry β)
  | done => []
  | step nickname directive branch inner later =>
      ⟨depth, nickname, directive, branch⟩ ::
        (inner.listing (depth + 1) ++ later.listing depth)

def branches : Instructions β → List β
  | done => []
  | step _ _ branch inner later => branch :: (inner.branches ++ later.branches)

def find? (wanted : String) : Instructions β → Option (Step β)
  | done => none
  | step nickname directive branch inner later =>
      if nickname = wanted then some ⟨nickname, directive, branch, inner⟩
      else (inner.find? wanted).or (later.find? wanted)

end Instructions

namespace Tree

variable {β γ : Type}

def map (f : β → γ) (tree : Tree β) : Tree γ :=
  ⟨f tree.base, tree.instructions.map f⟩

def count (tree : Tree β) : Nat :=
  1 + tree.instructions.count

def branches (tree : Tree β) : List β :=
  tree.base :: tree.instructions.branches

def find? (nickname : String) (tree : Tree β) : Option (Step β) :=
  tree.instructions.find? nickname

end Tree

/-- A tree that instructions are being added to, with those that are still open: the next one may
come under any of them.  The innermost stands first. -/
structure OpenTree (β : Type) where
  tree : Tree β
  opened : List (Step β)

namespace OpenTree

variable {β : Type}

/-- A block is added under the innermost open instruction, or under the base if none is open. -/
def add (block : Instructions β) : OpenTree β → OpenTree β
  | ⟨tree, []⟩ => ⟨⟨tree.base, tree.instructions.append block⟩, []⟩
  | ⟨tree, step :: outer⟩ =>
      ⟨tree, { step with inner := step.inner.append block } :: outer⟩

theorem length_opened_add (block : Instructions β) (growing : OpenTree β) :
    (growing.add block).opened.length = growing.opened.length := by
  match growing with
  | ⟨_, []⟩ => rfl
  | ⟨_, _ :: _⟩ => rfl

/-- Closes open instructions, the innermost first, until at most `depth` are open.  One that is
closed comes at the end of what stands under the one around it. -/
def closeTo (depth : Nat) : OpenTree β → OpenTree β
  | ⟨tree, []⟩ => ⟨tree, []⟩
  | ⟨tree, step :: outer⟩ =>
      if outer.length < depth then ⟨tree, step :: outer⟩
      else closeTo depth (add step.block ⟨tree, outer⟩)
termination_by growing => growing.opened.length
decreasing_by
  rw [length_opened_add]
  exact Nat.lt_succ_self _

/-- The instruction of a line comes under the innermost one that is shallower, and is open. -/
def push (growing : OpenTree β) (line : Nat × Step β) : OpenTree β :=
  let closed := growing.closeTo line.1
  ⟨closed.tree, line.2 :: closed.opened⟩

end OpenTree

/-- The tree with a list of instructions added: one of depth 0 comes under the base, a deeper
one under the nearest instruction before it that is one level shallower. -/
def Tree.attach {β : Type} (tree : Tree β) (lines : List (Nat × Step β)) : Tree β :=
  ((lines.foldl OpenTree.push ⟨tree, []⟩).closeTo 0).tree

end SourceRecipe
