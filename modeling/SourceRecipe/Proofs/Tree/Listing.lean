import SourceRecipe.Tree

/-!
# Blocks and their listings

A block of instructions is linear text with depths: `Instructions.listing` writes it out and
`Instructions.ofLines` reads it back, by recursion into the blocks under the lines.  The two
directions are `ofLines_listing`, by which the block that was written out is read back, and
`listing_ofLines`, by which no line is lost, moved or doubled when a list of lines is read, whatever
its depths are.
-/

namespace SourceRecipe

variable {β γ : Type}

/-- The line of a listing as an instruction with nothing under it yet. -/
def Entry.bare (entry : Entry β) : Nat × Step β :=
  (entry.depth, ⟨entry.nickname, entry.directive, entry.branch, .done⟩)

def Step.listing (depth : Nat) (step : Step β) : List (Entry β) :=
  ⟨depth, step.nickname, step.directive, step.branch⟩ :: step.inner.listing (depth + 1)

namespace Instructions

@[simp]
theorem done_append (block : Instructions β) : done.append block = block := rfl

@[simp]
theorem append_done (block : Instructions β) : block.append done = block := by
  induction block with
  | done => rfl
  | step nickname directive branch inner later _ ih => rw [append, ih]

theorem append_assoc (first second third : Instructions β) :
    (first.append second).append third = first.append (second.append third) := by
  induction first with
  | done => rfl
  | step nickname directive branch inner later _ ih => rw [append, append, append, ih]

@[simp]
theorem listing_done (depth : Nat) : (done : Instructions β).listing depth = [] := rfl

theorem listing_append (depth : Nat) (first second : Instructions β) :
    (first.append second).listing depth = first.listing depth ++ second.listing depth := by
  induction first with
  | done => rfl
  | step nickname directive branch inner later _ ih =>
      simp only [append, listing, ih, List.cons_append, List.append_assoc]

theorem listing_map (f : β → γ) (depth : Nat) (block : Instructions β) :
    (block.map f).listing depth = (block.listing depth).map fun entry =>
      ⟨entry.depth, entry.nickname, entry.directive, f entry.branch⟩ := by
  induction block generalizing depth with
  | done => rfl
  | step nickname directive branch inner later innerIh laterIh =>
      simp only [map, listing, List.map_cons, List.map_append, innerIh, laterIh]

theorem branches_map (f : β → γ) (block : Instructions β) :
    (block.map f).branches = block.branches.map f := by
  induction block with
  | done => rfl
  | step nickname directive branch inner later innerIh laterIh =>
      simp only [map, branches, List.map_cons, List.map_append, innerIh, laterIh]

/-- Two things said of the branches of a block are told apart by some branch. -/
theorem map_eq_map_iff {f g : β → γ} {block : Instructions β} :
    block.map f = block.map g ↔ ∀ branch ∈ block.branches, f branch = g branch := by
  induction block with
  | done => exact ⟨fun _ => List.forall_mem_nil _, fun _ => rfl⟩
  | step nickname directive branch inner later innerIh laterIh =>
      simp only [map, branches, List.forall_mem_cons, List.forall_mem_append, step.injEq, true_and,
        innerIh, laterIh]

theorem map_map {δ : Type} (g : γ → δ) (f : β → γ) (block : Instructions β) :
    (block.map f).map g = block.map (g ∘ f) := by
  induction block with
  | done => rfl
  | step nickname directive branch inner later innerIh laterIh =>
      rw [map, map, map, innerIh, laterIh, Function.comp]

/-- The branches of a block are those of its listing. -/
theorem map_branch_listing (depth : Nat) (block : Instructions β) :
    (block.listing depth).map Entry.branch = block.branches := by
  induction block generalizing depth with
  | done => rfl
  | step nickname directive branch inner later innerIh laterIh =>
      simp only [listing, branches, List.map_cons, List.map_append, innerIh, laterIh]

/-- The first instruction with a nickname is on the first line of the listing that has it. -/
theorem map_branch_find? (wanted : String) (depth : Nat) (block : Instructions β) :
    (block.find? wanted).map Step.branch =
      ((block.listing depth).find? fun entry => entry.nickname = wanted).map Entry.branch := by
  induction block generalizing depth with
  | done => rfl
  | step nickname directive branch inner later innerIh laterIh =>
      rw [find?, listing, List.find?_cons]
      by_cases named : nickname = wanted
      · rw [if_pos named, decide_eq_true named]
        rfl
      · rw [if_neg named, decide_eq_false named, Option.map_or, innerIh (depth + 1),
          laterIh depth, List.find?_append, Option.map_or]

/-- A block has as many lines as instructions. -/
theorem length_listing (depth : Nat) (block : Instructions β) :
    (block.listing depth).length = block.count := by
  induction block generalizing depth with
  | done => rfl
  | step nickname directive branch inner later innerIh laterIh =>
      rw [listing, List.length_cons, List.length_append, innerIh, laterIh, count]
      omega

/-! ## Blocks of lines -/

/-- The block that a list of instructions with depths spells at `depth`, and the lines it
leaves to the blocks around it.  An instruction belongs to the block as soon as it is not
shallower than the block, so one that is indented too far is taken as if it were indented by
one level. -/
def takeBlock (depth : Nat) (lines : List (Nat × Step β)) :
    Instructions β × { rest : List (Nat × Step β) // rest.length ≤ lines.length } :=
  match lines with
  | [] => (done, ⟨[], Nat.le_refl _⟩)
  | (level, first) :: others =>
      if level < depth then (done, ⟨(level, first) :: others, Nat.le_refl _⟩)
      else
        let (under, ⟨rest, inRest⟩) := takeBlock (depth + 1) others
        let (later, ⟨last, inLast⟩) := takeBlock depth rest
        (step first.nickname first.directive first.branch (first.inner.append under) later,
          ⟨last, by simp only [List.length_cons]; omega⟩)
termination_by lines.length
decreasing_by
  all_goals simp only [List.length_cons]; omega

def ofLines (lines : List (Nat × Step β)) : Instructions β :=
  (takeBlock 0 lines).1

def blockOf (depth : Nat) (lines : List (Nat × Step β)) : Instructions β :=
  (takeBlock depth lines).1

def restOf (depth : Nat) (lines : List (Nat × Step β)) : List (Nat × Step β) :=
  (takeBlock depth lines).2.1

theorem ofLines_eq_blockOf (lines : List (Nat × Step β)) : ofLines lines = blockOf 0 lines := rfl

theorem length_restOf_le (depth : Nat) (lines : List (Nat × Step β)) :
    (restOf depth lines).length ≤ lines.length :=
  (takeBlock depth lines).2.2

@[simp]
theorem blockOf_nil (depth : Nat) : blockOf depth ([] : List (Nat × Step β)) = done := by
  rw [blockOf, takeBlock]

@[simp]
theorem restOf_nil (depth : Nat) : restOf depth ([] : List (Nat × Step β)) = [] := by
  rw [restOf, takeBlock]

/-- A line that is shallower than the block ends it. -/
theorem blockOf_cons_of_lt {depth level : Nat} (shallow : level < depth) (first : Step β)
    (others : List (Nat × Step β)) : blockOf depth ((level, first) :: others) = done := by
  rw [blockOf, takeBlock, if_pos shallow]

theorem restOf_cons_of_lt {depth level : Nat} (shallow : level < depth) (first : Step β)
    (others : List (Nat × Step β)) :
    restOf depth ((level, first) :: others) = (level, first) :: others := by
  rw [restOf, takeBlock, if_pos shallow]

/-- Any other line belongs to the block, and the lines after it give first what stands under it
and then the rest of the block. -/
theorem blockOf_cons_of_le {depth level : Nat} (deep : depth ≤ level) (first : Step β)
    (others : List (Nat × Step β)) :
    blockOf depth ((level, first) :: others) =
      step first.nickname first.directive first.branch
        (first.inner.append (blockOf (depth + 1) others))
        (blockOf depth (restOf (depth + 1) others)) := by
  rw [blockOf, takeBlock, if_neg (Nat.not_lt.mpr deep)]
  rfl

theorem restOf_cons_of_le {depth level : Nat} (deep : depth ≤ level) (first : Step β)
    (others : List (Nat × Step β)) :
    restOf depth ((level, first) :: others) = restOf depth (restOf (depth + 1) others) := by
  rw [restOf, takeBlock, if_neg (Nat.not_lt.mpr deep)]
  rfl

/-- Whether a block at `depth` ends before these lines. -/
def EndsBlock (depth : Nat) (lines : List (Nat × Step β)) : Prop :=
  ∀ line ∈ lines.head?, line.1 < depth

theorem endsBlock_nil (depth : Nat) : EndsBlock depth ([] : List (Nat × Step β)) := by
  intro line member
  cases member

/-- What a block leaves is none of its own lines. -/
theorem endsBlock_restOf (depth : Nat) (lines : List (Nat × Step β)) :
    EndsBlock depth (restOf depth lines) := by
  match lines with
  | [] =>
      rw [restOf_nil]
      exact endsBlock_nil depth
  | (level, first) :: others =>
      rcases Nat.lt_or_ge level depth with shallow | deep
      · rw [restOf_cons_of_lt shallow]
        intro line member
        cases member
        exact shallow
      · rw [restOf_cons_of_le deep]
        have shorter := length_restOf_le (depth + 1) others
        exact endsBlock_restOf depth _
termination_by lines.length
decreasing_by
  rw [List.length_cons]
  exact Nat.lt_succ_of_le shorter

/-- No line is shallower than the outermost block. -/
theorem restOf_zero (lines : List (Nat × Step β)) : restOf 0 lines = [] := by
  cases rest : restOf 0 lines with
  | nil => rfl
  | cons line others =>
      have ends := endsBlock_restOf 0 lines
      rw [rest] at ends
      exact absurd (ends line rfl) (Nat.not_lt_zero _)

/-! ## Reading what was written out -/

/-- A block is read back from its listing, and the lines after it are left. -/
theorem blockOf_listing (block : Instructions β) (depth : Nat) (rest : List (Nat × Step β))
    (ends : EndsBlock depth rest) :
    blockOf depth ((block.listing depth).map Entry.bare ++ rest) = block ∧
      restOf depth ((block.listing depth).map Entry.bare ++ rest) = rest := by
  induction block generalizing depth rest with
  | done =>
      cases rest with
      | nil => exact ⟨blockOf_nil depth, restOf_nil depth⟩
      | cons line others =>
          have shallow : line.1 < depth := ends line rfl
          exact ⟨blockOf_cons_of_lt shallow line.2 others, restOf_cons_of_lt shallow line.2 others⟩
  | step nickname directive branch inner later innerIh laterIh =>
      -- The block under the instruction ends where the block around it goes on.
      have innerEnds : EndsBlock (depth + 1) ((later.listing depth).map Entry.bare ++ rest) := by
        intro line member
        cases later with
        | done => exact Nat.lt_succ_of_lt (ends line member)
        | step _ _ _ _ _ =>
            cases member
            exact Nat.lt_succ_self depth
      obtain ⟨innerBlock, innerRest⟩ := innerIh (depth + 1) _ innerEnds
      obtain ⟨laterBlock, laterRest⟩ := laterIh depth rest ends
      simp only [listing, List.map_cons, List.map_append, List.cons_append, List.append_assoc,
        Entry.bare]
      rw [blockOf_cons_of_le (Nat.le_refl depth), restOf_cons_of_le (Nat.le_refl depth),
        innerBlock, innerRest, laterBlock, laterRest, done_append]
      exact ⟨rfl, rfl⟩

/-- A block is read back from its listing. -/
theorem ofLines_listing (block : Instructions β) :
    ofLines ((block.listing 0).map Entry.bare) = block := by
  have read := (blockOf_listing block 0 [] (endsBlock_nil 0)).1
  rw [List.append_nil] at read
  exact read

/-- Different blocks have different listings. -/
theorem listing_injective {first second : Instructions β}
    (same : first.listing 0 = second.listing 0) : first = second := by
  rw [← ofLines_listing first, same, ofLines_listing]

/-! ## Writing out what was read -/

/-- The depths that lines get when none may be more than one level below the line before it;
`bound` is the most that the first one may have. -/
def settle (bound : Nat) : List (Nat × Step β) → List (Nat × Step β)
  | [] => []
  | (depth, first) :: others =>
      (min depth bound, first) :: settle (min depth bound + 1) others

def spread (lines : List (Nat × Step β)) : List (Entry β) :=
  lines.flatMap fun line => line.2.listing line.1

/-- The bound counts for the first line only, and there only when it is exceeded. -/
theorem settle_eq_of_endsBlock {depth : Nat} {lines : List (Nat × Step β)}
    (ends : EndsBlock (depth + 1) lines) : settle (depth + 1) lines = settle depth lines := by
  cases lines with
  | nil => rfl
  | cons line others =>
      have low : line.1 ≤ depth := Nat.le_of_lt_succ (ends line rfl)
      simp only [settle, Nat.min_eq_left low, Nat.min_eq_left (Nat.le_succ_of_le low)]

/-- A block and what it leaves hold the settled lines, in their order. -/
theorem spread_settle (depth : Nat) (lines : List (Nat × Step β)) :
    spread (settle depth lines) =
      (blockOf depth lines).listing depth ++ spread (settle depth (restOf depth lines)) := by
  match lines with
  | [] =>
      rw [blockOf_nil, restOf_nil]
      rfl
  | (level, first) :: others =>
      rcases Nat.lt_or_ge level depth with shallow | deep
      · rw [blockOf_cons_of_lt shallow, restOf_cons_of_lt shallow, listing_done, List.nil_append]
      · have shorter := length_restOf_le (depth + 1) others
        have under := spread_settle (depth + 1) others
        have later := spread_settle depth (restOf (depth + 1) others)
        rw [settle_eq_of_endsBlock (endsBlock_restOf (depth + 1) others)] at under
        rw [blockOf_cons_of_le deep, restOf_cons_of_le deep, settle, Nat.min_eq_right deep, listing,
          listing_append]
        change first.listing depth ++ spread (settle (depth + 1) others) = _
        rw [under, later, Step.listing]
        simp only [List.cons_append, List.append_assoc]
termination_by lines.length
decreasing_by
  · exact Nat.lt_succ_self _
  · rw [List.length_cons]
    exact Nat.lt_succ_of_le shorter

/-- Every line of a list is in the block that the list spells, in its place and at its settled
depth. -/
theorem listing_ofLines (lines : List (Nat × Step β)) :
    (ofLines lines).listing 0 = spread (settle 0 lines) := by
  rw [spread_settle, restOf_zero, ofLines_eq_blockOf]
  exact (List.append_nil _).symm

/-- As many lines are spread out as instructions stand in the lines and under them. -/
theorem length_spread_settle (bound : Nat) (lines : List (Nat × Step β)) :
    (spread (settle bound lines)).length =
      lines.foldr (fun line total => line.2.tree.count + total) 0 := by
  induction lines generalizing bound with
  | nil => rfl
  | cons line others ih =>
      have rest := ih (min line.1 bound + 1)
      rw [spread] at rest
      rw [settle, spread, List.flatMap_cons, List.length_append, rest, List.foldr_cons,
        Step.listing, List.length_cons, length_listing, Step.tree, Tree.count, Nat.add_comm 1]

end Instructions

theorem Tree.map_eq_map_iff {f g : β → γ} {tree : Tree β} :
    tree.map f = tree.map g ↔ ∀ branch ∈ tree.branches, f branch = g branch := by
  simp only [map, branches, List.forall_mem_cons, Tree.mk.injEq, Instructions.map_eq_map_iff]

theorem Tree.map_map {δ : Type} (g : γ → δ) (f : β → γ) (tree : Tree β) :
    (tree.map f).map g = tree.map (g ∘ f) := by
  rw [map, map, map, Instructions.map_map, Function.comp]

theorem Tree.branches_map (f : β → γ) (tree : Tree β) :
    (tree.map f).branches = tree.branches.map f := by
  rw [branches, branches, map, Instructions.branches_map, List.map_cons]

end SourceRecipe
