import Mathlib.Algebra.BigOperators.Group.Finset.Basic
import SourceRecipe.Proofs.Depot.Ancestry

/-!
# Searches through a history

A walk comes to revisions in the order of the steps to parents that lead to them, and it puts each
link to a parent into its queue once at most.  So it ends on every history, also where parents are
missing or go round in a cycle, and what it finds first is nearest.  The ancestors of a revision and
the revision that two others have started from are found by such walks.
-/

namespace SourceRecipe.History

variable {history : History} {wanted : String → Bool} {seen queue front back : List String}
  {start next ancestor : String} {steps : Nat}

/-! ## Steps to parents -/

inductive DescendsIn (history : History) (start : String) : Nat → String → Prop where
  | refl : DescendsIn history start 0 start
  | tail {steps : Nat} {between parent : String}
      (descends : DescendsIn history start steps between)
      (above : parent ∈ history.parents between) : DescendsIn history start (steps + 1) parent

theorem DescendsIn.descends (leads : history.DescendsIn start steps ancestor) :
    history.Descends start ancestor := by
  induction leads with
  | refl => exact .refl
  | tail _ above ih => exact ih.tail above

/-! ## The order of a walk -/

/-- How a walk from a revision stands when everything less than some steps away is behind it: the
front of its queue is those steps away and the back one step more, nothing that it has gone on from
was looked for, and the parents of that are behind it or in the queue. -/
structure IsLayered (history : History) (wanted : String → Bool) (start : String) (steps : Nat)
    (seen front back : List String) : Prop where
  inFront : ∀ revision ∈ front, history.DescendsIn start steps revision
  inBack : ∀ revision ∈ back, history.DescendsIn start (steps + 1) revision
  unwanted : ∀ revision ∈ seen, wanted revision = false
  nearer : ∀ fewer < steps, ∀ revision, history.DescendsIn start fewer revision → revision ∈ seen
  here : ∀ revision, history.DescendsIn start steps revision → revision ∈ seen ∨ revision ∈ front
  closed : ∀ revision ∈ seen, ∀ parent ∈ history.parents revision,
    parent ∈ seen ∨ parent ∈ front ++ back

/-- When a walk goes on from the first revision in its queue, what was behind it or in the queue
still is. -/
theorem behind_or_queued {others : List String}
    (either : ancestor ∈ seen ∨ ancestor ∈ next :: others) :
    ancestor ∈ next :: seen ∨ ancestor ∈ others := by
  rcases either with known | queued
  · exact .inl (List.mem_cons_of_mem next known)
  · exact (List.mem_cons.mp queued).imp_left fun same => List.mem_cons.mpr (.inl same)

theorem behind_or_queued_of_mem {others : List String} (behind : next ∈ seen)
    (either : ancestor ∈ seen ∨ ancestor ∈ next :: others) :
    ancestor ∈ seen ∨ ancestor ∈ others := by
  have within : next :: seen ⊆ seen := List.cons_subset.mpr ⟨behind, List.Subset.refl seen⟩
  exact (behind_or_queued either).imp_left fun known => within known

theorem isLayered_start (history : History) (wanted : String → Bool) (start : String) :
    history.IsLayered wanted start 0 [] [start] [] where
  inFront := List.forall_mem_singleton.mpr .refl
  inBack := List.forall_mem_nil _
  unwanted := List.forall_mem_nil _
  nearer _ impossible := absurd impossible (Nat.not_lt_zero _)
  here revision leads := by
    cases leads
    exact .inr List.mem_cons_self
  closed := List.forall_mem_nil _

namespace IsLayered

/-- When the front has been gone through, the back is the front of the next step. -/
theorem deeper (layered : history.IsLayered wanted start steps seen [] back) :
    history.IsLayered wanted start (steps + 1) seen back [] where
  inFront := layered.inBack
  inBack := List.forall_mem_nil _
  unwanted := layered.unwanted
  nearer fewer below revision leads := by
    rcases Nat.lt_succ_iff_lt_or_eq.mp below with below | rfl
    · exact layered.nearer fewer below revision leads
    · exact (layered.here revision leads).resolve_right List.not_mem_nil
  here revision leads := by
    cases leads with
    | tail leads above =>
        have behind := (layered.here _ leads).resolve_right List.not_mem_nil
        exact layered.closed _ behind revision above
  closed revision behind parent above := by
    rw [List.append_nil]
    exact layered.closed revision behind parent above

/-- The first revision in the queue is at the front of the same step or of the next one. -/
theorem refill {others : List String} (layered : history.IsLayered wanted start steps seen front back)
    (queued : next :: others = front ++ back) :
    ∃ steps front back, history.IsLayered wanted start steps seen (next :: front) back ∧
      others = front ++ back := by
  cases front with
  | nil =>
      rw [List.nil_append] at queued
      subst queued
      exact ⟨steps + 1, others, [], layered.deeper, (List.append_nil others).symm⟩
  | cons first front =>
      obtain ⟨rfl, rfl⟩ := List.cons.inj queued
      exact ⟨steps, front, back, layered, rfl⟩

/-- A revision that is behind the walk is left out. -/
theorem skip (layered : history.IsLayered wanted start steps seen (next :: front) back)
    (behind : next ∈ seen) : history.IsLayered wanted start steps seen front back where
  inFront := (List.forall_mem_cons.mp layered.inFront).2
  inBack := layered.inBack
  unwanted := layered.unwanted
  nearer := layered.nearer
  here revision leads := behind_or_queued_of_mem behind (layered.here revision leads)
  closed revision known parent above :=
    behind_or_queued_of_mem behind (layered.closed revision known parent above)

/-- A walk goes on from a revision at its front to the parents, which are one step more away. -/
theorem goOn (layered : history.IsLayered wanted start steps seen (next :: front) back)
    (passes : wanted next = false) :
    history.IsLayered wanted start steps (next :: seen) front (back ++ history.parents next) where
  inFront := (List.forall_mem_cons.mp layered.inFront).2
  inBack := by
    have here := layered.inFront next List.mem_cons_self
    exact List.forall_mem_append.mpr ⟨layered.inBack, fun _ above => here.tail above⟩
  unwanted := List.forall_mem_cons.mpr ⟨passes, layered.unwanted⟩
  nearer fewer below revision leads :=
    List.mem_cons_of_mem next (layered.nearer fewer below revision leads)
  here revision leads := behind_or_queued (layered.here revision leads)
  closed revision known parent above := by
    rw [← List.append_assoc]
    rcases List.mem_cons.mp known with rfl | known
    · exact .inr (List.mem_append_right _ above)
    · have earlier := behind_or_queued (layered.closed revision known parent above)
      exact earlier.imp_right (List.mem_append_left _)

/-- Nothing that is looked for is nearer than the front. -/
theorem le_of_wanted (layered : history.IsLayered wanted start steps seen front back) {fewer : Nat}
    (leads : history.DescendsIn start fewer ancestor) (sought : wanted ancestor = true) :
    steps ≤ fewer := by
  apply Nat.le_of_not_lt
  intro below
  have passed := layered.unwanted ancestor (layered.nearer fewer below ancestor leads)
  rw [sought] at passed
  cases passed

/-- When the queue is empty, all that the start descends from is behind the walk. -/
theorem unwanted_of_nil (layered : history.IsLayered wanted start steps seen [] [])
    (descends : history.Descends start ancestor) : wanted ancestor = false := by
  apply layered.unwanted
  induction descends with
  | refl =>
      rcases Nat.eq_zero_or_pos steps with rfl | some
      · exact (layered.here start .refl).resolve_right List.not_mem_nil
      · exact layered.nearer 0 some start .refl
  | tail _ above ih => exact (layered.closed _ ih _ above).resolve_right List.not_mem_nil

end IsLayered

/-- What a search from a revision is to find: nothing if the revision descends from nothing that is
looked for, or what is looked for and fewest steps away. -/
inductive FindsNearest (history : History) (wanted : String → Bool) (start : String) :
    Option String → Prop where
  | nothing (unwanted : ∀ ancestor, history.Descends start ancestor → wanted ancestor = false) :
      FindsNearest history wanted start none
  | nearest {found : String} {steps : Nat} (sought : wanted found = true)
      (leads : history.DescendsIn start steps found)
      (fewest : ∀ ancestor fewer, history.DescendsIn start fewer ancestor →
        wanted ancestor = true → steps ≤ fewer) :
      FindsNearest history wanted start (some found)

/-- However the queue is divided into layers, a walk on from there finds the nearest. -/
theorem IsLayered.findsNearest (layered : history.IsLayered wanted start steps seen front back)
    (queued : queue = front ++ back) :
    history.FindsNearest wanted start (history.walk wanted seen queue).found := by
  -- Along the walk; the layers move on by a step whenever the front has been gone through.
  fun_induction walk history wanted seen queue generalizing steps front back with
  | case1 seen =>
      obtain ⟨rfl, rfl⟩ := List.nil_eq_append_iff.mp queued
      exact .nothing fun ancestor descends => layered.unwanted_of_nil descends
  | case2 seen next others sought =>
      obtain ⟨steps, front, back, layered, _⟩ := layered.refill queued
      exact .nearest sought (layered.inFront next List.mem_cons_self) fun _ _ => layered.le_of_wanted
  | case3 seen next others _ known ih =>
      obtain ⟨steps, front, back, layered, rest⟩ := layered.refill queued
      exact ih (layered.skip known) rest
  | case4 seen next others passes _ ih =>
      obtain ⟨steps, front, back, layered, rfl⟩ := layered.refill queued
      exact ih (layered.goOn (Bool.eq_false_iff.mpr passes)) (List.append_assoc ..)

/-- A walk from a revision finds the nearest of what it looks for. -/
theorem walk_findsNearest (history : History) (wanted : String → Bool) (start : String) :
    history.FindsNearest wanted start (history.walk wanted [] [start]).found :=
  (history.isLayered_start wanted start).findsNearest rfl

/-! ## The rounds of a walk -/

/-- A walk that is over after some rounds.  A round takes one revision off the queue and goes on to
its parents, unless the walk has gone on from it before. -/
inductive Rounds (history : History) (wanted : String → Bool) :
    Nat → List String → List String → Walk → Prop where
  | ended (seen : List String) : Rounds history wanted 0 seen [] ⟨none, seen⟩
  | found {next : String} (sought : wanted next = true) (seen others : List String) :
      Rounds history wanted 0 seen (next :: others) ⟨some next, seen⟩
  | skip {next : String} {seen others : List String} {rounds : Nat} {walk : Walk}
      (passes : wanted next = false) (behind : next ∈ seen)
      (rest : Rounds history wanted rounds seen others walk) :
      Rounds history wanted (rounds + 1) seen (next :: others) walk
  | goOn {next : String} {seen others : List String} {rounds : Nat} {walk : Walk}
      (passes : wanted next = false) (new : next ∉ seen)
      (rest : Rounds history wanted rounds (next :: seen) (others ++ history.parents next) walk) :
      Rounds history wanted (rounds + 1) seen (next :: others) walk

/-- How many links to parents start from the kept revisions that a walk has not gone on from. -/
def linksLeft (history : History) (seen : List String) : Nat :=
  ∑ revision ∈ history.keys.toFinset \ seen.toFinset, (history.parents revision).length

def links (history : History) : Nat :=
  ∑ revision ∈ history.keys.toFinset, (history.parents revision).length

theorem linksLeft_nil (history : History) : history.linksLeft [] = history.links := by
  rw [linksLeft, links, List.toFinset_nil, Finset.sdiff_empty]

/-- Going on from a revision uses up its links. -/
theorem linksLeft_cons_add (history : History) (new : next ∉ seen) :
    history.linksLeft (next :: seen) + (history.parents next).length = history.linksLeft seen := by
  rw [linksLeft, linksLeft, List.toFinset_cons, Finset.sdiff_insert]
  by_cases kept : next ∈ history.keys
  · apply Finset.sum_erase_add
    rw [Finset.mem_sdiff, List.mem_toFinset, List.mem_toFinset]
    exact ⟨kept, new⟩
  · have none : history.parents next = [] :=
      not_ne_iff.mp fun any => kept (mem_keys_of_parents any)
    rw [none, List.length_nil, Nat.add_zero, Finset.erase_eq_of_notMem]
    rw [Finset.mem_sdiff, List.mem_toFinset]
    exact fun member => kept member.1

/-- A walk takes a round for each revision in its queue and each link that is left at most. -/
theorem walk_rounds (history : History) (wanted : String → Bool) (seen queue : List String) :
    ∃ rounds ≤ queue.length + history.linksLeft seen,
      history.Rounds wanted rounds seen queue (history.walk wanted seen queue) := by
  fun_induction walk history wanted seen queue with
  | case1 seen => exact ⟨0, Nat.zero_le _, .ended seen⟩
  | case2 seen next others sought => exact ⟨0, Nat.zero_le _, .found sought seen others⟩
  | case3 seen next others passes known ih =>
      obtain ⟨rounds, few, rest⟩ := ih
      refine ⟨rounds + 1, ?_, .skip (Bool.eq_false_iff.mpr passes) known rest⟩
      rw [List.length_cons]
      omega
  | case4 seen next others passes new ih =>
      obtain ⟨rounds, few, rest⟩ := ih
      refine ⟨rounds + 1, ?_, .goOn (Bool.eq_false_iff.mpr passes) new rest⟩
      have used := history.linksLeft_cons_add new
      rw [List.length_append] at few
      rw [List.length_cons]
      omega

/-- A walk from one revision takes a round for it and each link of the history at most. -/
theorem walk_rounds_of_start (history : History) (wanted : String → Bool) (start : String) :
    ∃ rounds ≤ history.links + 1,
      history.Rounds wanted rounds [] [start] (history.walk wanted [] [start]) := by
  obtain ⟨rounds, few, walks⟩ := history.walk_rounds wanted [] [start]
  rw [linksLeft_nil, List.length_singleton, Nat.add_comm] at few
  exact ⟨rounds, few, walks⟩

/-! ## Ancestors and common ancestors -/

/-- A walk that looks for nothing finds nothing. -/
theorem walk_eq_ancestors (history : History) (revision : String) :
    history.walk (fun _ => false) [] [revision] = ⟨none, history.ancestors revision⟩ := by
  rw [ancestors]
  cases walked : history.walk (fun _ => false) [] [revision] with
  | mk found seen =>
      have finds := history.walk_findsNearest (fun _ => false) revision
      rw [walked] at finds
      cases finds with
      | nothing => rfl
      | nearest impossible => cases impossible

/-- Some revision is found just when one of those that are looked for is reached. -/
theorem FindsNearest.isSome_iff {found : Option String}
    (finds : history.FindsNearest wanted start found) :
    found.isSome ↔ ∃ ancestor, history.Descends start ancestor ∧ wanted ancestor = true := by
  cases finds with
  | nothing unwanted =>
      constructor
      · intro impossible
        cases impossible
      · rintro ⟨ancestor, descends, sought⟩
        cases sought.symm.trans (unwanted ancestor descends)
  | nearest sought leads => exact ⟨fun _ => ⟨_, leads.descends, sought⟩, fun _ => rfl⟩

theorem mergeBase?_findsNearest (history : History) (ours theirs : String) :
    history.FindsNearest (fun revision => decide (revision ∈ history.ancestors ours)) theirs
      (history.mergeBase? ours theirs) :=
  history.walk_findsNearest _ theirs

/-- The searches for ancestors and for a common ancestor end on every history, after one round for
the start and one for each link to a parent at most.  The first one finds the revisions that are
reached through parents.  The second one finds a revision when any is reached from both sides, and
then one that is, with no other such revision fewer steps away from the second side. -/
theorem searches_are_exact (history : History) (ours theirs : String) :
    (∃ rounds ≤ history.links + 1, history.Rounds (fun _ => false) rounds [] [ours]
        ⟨none, history.ancestors ours⟩) ∧
      (∀ ancestor, ancestor ∈ history.ancestors ours ↔ history.Descends ours ancestor) ∧
      (∃ rounds ≤ history.links + 1, ∃ seen,
        history.Rounds (fun revision => decide (revision ∈ history.ancestors ours)) rounds []
          [theirs] ⟨history.mergeBase? ours theirs, seen⟩) ∧
      ((history.mergeBase? ours theirs).isSome ↔
        ∃ common, history.Descends ours common ∧ history.Descends theirs common) ∧
      ∀ base, history.mergeBase? ours theirs = some base → history.Descends ours base ∧
        ∃ steps, history.DescendsIn theirs steps base ∧
          ∀ common fewer, history.Descends ours common → history.DescendsIn theirs fewer common →
            steps ≤ fewer := by
  have finds := history.mergeBase?_findsNearest ours theirs
  refine ⟨?_, fun ancestor => mem_ancestors_iff, ?_, ?_, ?_⟩
  · rw [← walk_eq_ancestors]
    exact history.walk_rounds_of_start _ ours
  · obtain ⟨rounds, few, walks⟩ := history.walk_rounds_of_start _ theirs
    exact ⟨rounds, few, _, walks⟩
  · rw [finds.isSome_iff]
    simp only [decide_eq_true_eq, mem_ancestors_iff, and_comm]
  · intro base found
    rw [found] at finds
    cases finds with
    | nearest sought leads fewest =>
        refine ⟨mem_ancestors_iff.mp (of_decide_eq_true sought), _, leads, ?_⟩
        intro common fewer shared leads
        exact fewest common fewer leads (decide_eq_true (mem_ancestors_iff.mpr shared))

end SourceRecipe.History
