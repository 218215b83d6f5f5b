import SourceRecipe.Proofs.Tree.Listing

/-!
# Searching a block

An instruction stands in a block where its line stands in the listing, and the lines behind it that
are deeper stand for what is under it; so a place in a listing tells the instruction.  A search by
nickname finds the instruction on the first line with that nickname, and the same place is found in
every block of which something else is said.
-/

namespace SourceRecipe

variable {β γ : Type}

/-- The same instruction with another thing said of its branch and of each branch under it. -/
def Step.map (f : β → γ) (step : Step β) : Step γ :=
  ⟨step.nickname, step.directive, f step.branch, step.inner.map f⟩

theorem Step.listing_map (f : β → γ) (depth : Nat) (step : Step β) :
    (step.map f).listing depth = (step.listing depth).map fun entry =>
      ⟨entry.depth, entry.nickname, entry.directive, f entry.branch⟩ := by
  rw [listing, listing, List.map_cons, map, Instructions.listing_map]

namespace Instructions

theorem map_id (block : Instructions β) : block.map id = block := by
  induction block with
  | done => rfl
  | step nickname directive branch inner later innerIh laterIh =>
      rw [map, innerIh, laterIh]
      rfl

variable {block : Instructions β} {depth place level : Nat} {step : Step β} {wanted : String}

/-! ## Where instructions stand -/

/-- Whether an instruction, with what stands under it, is the one on the line of a listing that has
`place` lines in front of it. -/
def StandsAt (block : Instructions β) (depth place level : Nat) (step : Step β) : Prop :=
  ∃ before after, block.listing depth = before ++ step.listing level ++ after ∧
    before.length = place ∧ ∀ line ∈ after.head?, line.depth ≤ level

theorem le_depth_of_mem_listing {line : Entry β} (member : line ∈ block.listing depth) :
    depth ≤ line.depth := by
  induction block generalizing depth with
  | done => cases member
  | step nickname directive branch inner later innerIh laterIh =>
      simp only [listing, List.mem_cons, List.mem_append] at member
      rcases member with rfl | under | after
      · exact Nat.le_refl depth
      · exact Nat.le_of_succ_le (innerIh under)
      · exact laterIh after

/-- The first line of a block is not deeper than the block. -/
theorem depth_le_of_mem_head? {line : Entry β} (first : line ∈ (block.listing depth).head?) :
    line.depth ≤ depth := by
  cases block with
  | done => cases first
  | step nickname directive branch inner later =>
      cases first
      exact Nat.le_refl depth

/-- The line of an instruction has its nickname. -/
theorem StandsAt.getElem? (stands : block.StandsAt depth place level step) :
    (block.listing depth)[place]? = some ⟨level, step.nickname, step.directive, step.branch⟩ := by
  obtain ⟨before, after, written, rfl, _⟩ := stands
  rw [written, List.append_assoc, List.getElem?_append_right (Nat.le_refl _), Nat.sub_self]
  rfl

theorem StandsAt.le_level (stands : block.StandsAt depth place level step) : depth ≤ level :=
  le_depth_of_mem_listing (List.mem_of_getElem? stands.getElem?)

/-- A place in a listing tells the instruction, with what stands under it. -/
theorem StandsAt.unique {other : Nat} {otherStep : Step β}
    (stands : block.StandsAt depth place level step)
    (otherStands : block.StandsAt depth place other otherStep) :
    level = other ∧ step = otherStep := by
  have lines := stands.getElem?.symm.trans otherStands.getElem?
  rw [Option.some.injEq, Entry.mk.injEq] at lines
  obtain ⟨rfl, nicknames, directives, branches⟩ := lines
  obtain ⟨before, after, written, length, ends⟩ := stands
  obtain ⟨otherBefore, otherAfter, otherWritten, otherLength, otherEnds⟩ := otherStands
  refine ⟨rfl, ?_⟩
  -- What stands under both of them is read from the same lines.
  have rest : step.inner.listing (level + 1) ++ after =
      otherStep.inner.listing (level + 1) ++ otherAfter := by
    rw [written, List.append_assoc, List.append_assoc] at otherWritten
    exact (List.cons.inj (List.append_inj otherWritten (length.trans otherLength.symm)).2).2
  have endsBlock {lines : List (Entry β)} (ends : ∀ line ∈ lines.head?, line.depth ≤ level) :
      EndsBlock (level + 1) (lines.map Entry.bare) := by
    intro line member
    rw [List.head?_map, Option.mem_def, Option.map_eq_some_iff] at member
    obtain ⟨entry, first, rfl⟩ := member
    exact Nat.lt_succ_of_le (ends entry first)
  have under := (blockOf_listing step.inner (level + 1) _ (endsBlock ends)).1
  have otherUnder := (blockOf_listing otherStep.inner (level + 1) _ (endsBlock otherEnds)).1
  rw [← List.map_append] at under otherUnder
  rw [rest, otherUnder] at under
  cases step
  cases otherStep
  simp_all

theorem StandsAt.map (f : β → γ) (stands : block.StandsAt depth place level step) :
    (block.map f).StandsAt depth place level (step.map f) := by
  obtain ⟨before, after, written, length, ends⟩ := stands
  let lineOf (entry : Entry β) : Entry γ :=
    ⟨entry.depth, entry.nickname, entry.directive, f entry.branch⟩
  refine ⟨before.map lineOf, after.map lineOf, ?_, (List.length_map _).trans length, ?_⟩
  · rw [listing_map, written, List.map_append, List.map_append, ← Step.listing_map]
  · intro line member
    rw [List.head?_map, Option.mem_def, Option.map_eq_some_iff] at member
    obtain ⟨entry, first, rfl⟩ := member
    exact ends entry first

/-! ## The search -/

/-- Nothing is found when no line has the nickname. -/
theorem find?_eq_none_iff (depth : Nat) :
    block.find? wanted = none ↔ ∀ line ∈ block.listing depth, line.nickname ≠ wanted := by
  rw [← Option.map_eq_none_iff, map_branch_find? wanted depth, Option.map_eq_none_iff,
    List.find?_eq_none]
  simp only [decide_eq_true_eq]

/-- What is found stands on the first line with the nickname. -/
theorem standsAt_of_find? (found : block.find? wanted = some step) (depth : Nat) :
    ∃ place level, block.StandsAt depth place level step ∧ step.nickname = wanted ∧
      ∀ line ∈ (block.listing depth).take place, line.nickname ≠ wanted := by
  induction block generalizing depth with
  | done => cases found
  | step nickname directive branch inner later innerIh laterIh =>
      rw [find?] at found
      by_cases named : nickname = wanted
      · rw [if_pos named] at found
        cases found
        refine ⟨0, depth, ⟨[], later.listing depth, rfl, rfl, fun _ => depth_le_of_mem_head?⟩,
          named, ?_⟩
        rw [List.take_zero]
        exact List.forall_mem_nil _
      · rw [if_neg named] at found
        cases under : inner.find? wanted with
        | some one =>
            rw [under] at found
            cases found
            obtain ⟨place, level, stands, same, first⟩ := innerIh under (depth + 1)
            have deeper := stands.le_level
            obtain ⟨before, after, written, rfl, ends⟩ := stands
            refine ⟨before.length + 1, level,
              ⟨⟨depth, nickname, directive, branch⟩ :: before, after ++ later.listing depth, ?_,
                rfl, ?_⟩, same, ?_⟩
            · rw [listing, written]
              simp only [List.cons_append, List.append_assoc]
            · intro line member
              cases after with
              | nil => exact Nat.le_trans (depth_le_of_mem_head? member) (by omega)
              | cons last others => exact ends line member
            · rw [listing, List.take_succ_cons, written, List.append_assoc, List.append_assoc,
                List.take_left, List.forall_mem_cons]
              rw [written, List.append_assoc, List.take_left] at first
              exact ⟨named, first⟩
        | none =>
            rw [under, Option.none_or] at found
            obtain ⟨place, level, stands, same, first⟩ := laterIh found depth
            obtain ⟨before, after, written, rfl, ends⟩ := stands
            refine ⟨_, level,
              ⟨⟨depth, nickname, directive, branch⟩ :: (inner.listing (depth + 1) ++ before), after,
                ?_, rfl, ends⟩, same, ?_⟩
            · rw [listing, written]
              simp only [List.cons_append, List.append_assoc]
            · rw [written, List.append_assoc, List.take_left] at first
              rw [listing, List.length_cons, List.take_succ_cons, written, List.append_assoc,
                ← List.append_assoc, List.take_left, List.forall_mem_cons, List.forall_mem_append]
              exact ⟨named, (find?_eq_none_iff (depth + 1)).mp under, first⟩

/-- The instruction that is found is the one on the first line with the nickname. -/
theorem find?_eq_some_iff (depth : Nat) :
    block.find? wanted = some step ↔
      ∃ place level, block.StandsAt depth place level step ∧ step.nickname = wanted ∧
        ∀ line ∈ (block.listing depth).take place, line.nickname ≠ wanted := by
  refine ⟨fun found => standsAt_of_find? found depth, ?_⟩
  rintro ⟨place, level, stands, named, first⟩
  have line := stands.getElem?
  cases found : block.find? wanted with
  | none =>
      exact absurd named ((find?_eq_none_iff depth).mp found _ (List.mem_of_getElem? line))
  | some other =>
      obtain ⟨otherPlace, otherLevel, otherStands, otherNamed, otherFirst⟩ :=
        standsAt_of_find? found depth
      have otherLine := otherStands.getElem?
      -- Neither of the two lines is in front of the other one.
      have same : place = otherPlace := by
        rcases Nat.lt_trichotomy place otherPlace with less | same | more
        · exact absurd named
            (otherFirst _ (List.mem_of_getElem? ((List.getElem?_take_of_lt less).trans line)))
        · exact same
        · exact absurd otherNamed
            (first _ (List.mem_of_getElem? ((List.getElem?_take_of_lt more).trans otherLine)))
      subst same
      rw [(stands.unique otherStands).2]

/-- Where more is said of the branches, the same instruction is found. -/
theorem find?_map (f : β → γ) (wanted : String) (block : Instructions β) :
    (block.map f).find? wanted = (block.find? wanted).map (Step.map f) := by
  induction block with
  | done => rfl
  | step nickname directive branch inner later innerIh laterIh =>
      rw [map, find?, find?]
      by_cases named : nickname = wanted
      · rw [if_pos named, if_pos named]
        rfl
      · rw [if_neg named, if_neg named, innerIh, laterIh, Option.map_or]

end Instructions

end SourceRecipe
