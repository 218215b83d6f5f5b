import SourceRecipe.Proofs.Tree.Listing

/-!
# Attaching instructions

`Tree.attach` goes through the lines once, with the instructions that are still open on a stack.
What is on the stack decides where the next line comes, not what it becomes: the lines that belong
under the innermost open instruction become the block that they spell there, and the loop goes on
with the lines that this block leaves (`close_foldl_push`).  So the tree is that of the blocks of
lines, which tells its listing.
-/

namespace SourceRecipe

variable {β : Type}

namespace OpenTree

open Instructions (EndsBlock blockOf restOf length_restOf_le)

theorem add_done (growing : OpenTree β) : growing.add .done = growing := by
  match growing with
  | ⟨tree, []⟩ => rw [add, Instructions.append_done]
  | ⟨tree, step :: outer⟩ => rw [add, Instructions.append_done]

theorem add_add (first second : Instructions β) (growing : OpenTree β) :
    (growing.add first).add second = growing.add (first.append second) := by
  match growing with
  | ⟨tree, []⟩ => rw [add, add, add, Instructions.append_assoc]
  | ⟨tree, step :: outer⟩ => rw [add, add, add, Instructions.append_assoc]

/-! ## The stack -/

/-- Nothing is closed where few enough are open. -/
theorem closeTo_of_le {depth : Nat} {growing : OpenTree β}
    (few : growing.opened.length ≤ depth) : growing.closeTo depth = growing := by
  match growing with
  | ⟨tree, []⟩ => rw [closeTo]
  | ⟨tree, step :: outer⟩ => rw [closeTo, if_pos (Nat.lt_of_succ_le few)]

/-- Otherwise the innermost open instruction is closed first. -/
theorem closeTo_cons {depth : Nat} {growing : OpenTree β} {step : Step β}
    (many : depth ≤ growing.opened.length) :
    (OpenTree.mk growing.tree (step :: growing.opened)).closeTo depth =
      (growing.add step.block).closeTo depth := by
  rw [closeTo, if_neg (Nat.not_lt.mpr many)]

/-- The lines behind the block under an open instruction find it closed. -/
theorem close_foldl_push_of_endsBlock {growing : OpenTree β} {step : Step β}
    {lines : List (Nat × Step β)} (ends : EndsBlock (growing.opened.length + 1) lines) :
    (lines.foldl push ⟨growing.tree, step :: growing.opened⟩).closeTo 0 =
      (lines.foldl push (growing.add step.block)).closeTo 0 := by
  cases lines with
  | nil => exact closeTo_cons (Nat.zero_le _)
  | cons line others =>
      have shallow : line.1 ≤ growing.opened.length := Nat.le_of_lt_succ (ends line rfl)
      rw [List.foldl_cons, List.foldl_cons, push, push, closeTo_cons shallow]

/-- The lines that belong under the innermost open instruction become the block that they spell
there, and the others come as if that block had stood there already. -/
theorem close_foldl_push (growing : OpenTree β) (lines : List (Nat × Step β)) :
    (lines.foldl push growing).closeTo 0 =
      ((restOf growing.opened.length lines).foldl push
        (growing.add (blockOf growing.opened.length lines))).closeTo 0 := by
  match lines with
  | [] => rw [Instructions.restOf_nil, Instructions.blockOf_nil, add_done]
  | (level, first) :: others =>
      rcases Nat.lt_or_ge level growing.opened.length with shallow | deep
      · rw [Instructions.restOf_cons_of_lt shallow, Instructions.blockOf_cons_of_lt shallow, add_done]
      · have shorter := length_restOf_le (growing.opened.length + 1) others
        -- The line is pushed and collects the block under it; then it is closed, and what is left
        -- of the lines meets the stack as it was.
        have under := close_foldl_push ⟨growing.tree, first :: growing.opened⟩ others
        have later := close_foldl_push
          (growing.add (.step first.nickname first.directive first.branch
            (first.inner.append (blockOf (growing.opened.length + 1) others)) .done))
          (restOf (growing.opened.length + 1) others)
        rw [length_opened_add, add_add] at later
        rw [Instructions.restOf_cons_of_le deep, Instructions.blockOf_cons_of_le deep, List.foldl_cons,
          push, closeTo_of_le deep, under]
        exact (close_foldl_push_of_endsBlock (Instructions.endsBlock_restOf _ others)).trans later
termination_by lines.length
decreasing_by
  · exact Nat.lt_succ_self _
  · rw [List.length_cons]
    exact Nat.lt_succ_of_le shorter

end OpenTree

/-- Attaching adds the block that the lines spell. -/
theorem Tree.attach_eq (tree : Tree β) (lines : List (Nat × Step β)) :
    tree.attach lines =
      ⟨tree.base, tree.instructions.append (.ofLines lines)⟩ := by
  have run := OpenTree.close_foldl_push ⟨tree, []⟩ lines
  rw [List.length_nil, Instructions.restOf_zero, List.foldl_nil] at run
  rw [attach, run, OpenTree.closeTo_of_le (Nat.zero_le _)]
  rfl

theorem Tree.base_attach (tree : Tree β) (lines : List (Nat × Step β)) :
    (tree.attach lines).base = tree.base := by
  rw [attach_eq]

/-- A tree that instructions are attached to lists what it listed before and then, in their order,
each instruction at its settled depth with what stood under it already. -/
theorem Tree.listing_attach (tree : Tree β) (lines : List (Nat × Step β)) :
    (tree.attach lines).instructions.listing 0 =
      tree.instructions.listing 0 ++ Instructions.spread (Instructions.settle 0 lines) := by
  rw [attach_eq, Instructions.listing_append, Instructions.listing_ofLines]

/-- Whatever the depths are, attaching gives the one tree on the same base that lists the old
instructions and then the new ones in their order, the first of them at the top and every further
one as deep as it is said to be, but at most one level below the one before it; each keeps what
stands under it.  So the branches add up. -/
theorem Tree.attach_keeps_all (tree : Tree β) (lines : List (Nat × Step β)) :
    (∀ attached : Tree β, attached = tree.attach lines ↔
      attached.base = tree.base ∧ attached.instructions.listing 0 =
        tree.instructions.listing 0 ++ Instructions.spread (Instructions.settle 0 lines)) ∧
      (tree.attach lines).count =
        tree.count + lines.foldr (fun line total => line.2.tree.count + total) 0 := by
  have listed := tree.listing_attach lines
  constructor
  · intro attached
    constructor
    · rintro rfl
      exact ⟨tree.base_attach lines, listed⟩
    · rintro ⟨base, listing⟩
      have instructions := Instructions.listing_injective (listing.trans listed.symm)
      calc attached = ⟨attached.base, attached.instructions⟩ := rfl
        _ = ⟨(tree.attach lines).base, (tree.attach lines).instructions⟩ := by
          rw [base, instructions, base_attach]
  · have lengths := congrArg List.length listed
    rw [List.length_append, Instructions.length_listing, Instructions.length_listing,
      Instructions.length_spread_settle] at lengths
    rw [count, count, lengths, Nat.add_assoc]

end SourceRecipe
