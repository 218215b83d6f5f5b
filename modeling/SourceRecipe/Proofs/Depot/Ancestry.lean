import Mathlib.Logic.Relation
import SourceRecipe.Depot.History

/-!
# Ancestry

The walk through the parents of a revision comes to exactly the revisions that are reached from it
by going to parents, so no ancestor is lost where a history grows.
-/

namespace SourceRecipe.History

/-- Whether a revision is reached from another one by going to parents any number of times. -/
def Descends (history : History) : String → String → Prop :=
  Relation.ReflTransGen fun revision parent => parent ∈ history.parents revision

variable {history : History} {wanted : String → Bool} {seen queue : List String}
  {revision ancestor : String}

theorem subset_walk (member : revision ∈ seen) :
    revision ∈ (history.walk wanted seen queue).seen := by
  fun_induction walk history wanted seen queue with
  | case1 => exact member
  | case2 => exact member
  | case3 _ _ _ _ _ ih => exact ih member
  | case4 _ _ _ _ _ ih => exact ih (List.mem_cons_of_mem _ member)

/-- A walk comes to nothing but what its queue descends from. -/
theorem walk_sound (member : ancestor ∈ (history.walk wanted seen queue).seen) :
    ancestor ∈ seen ∨ ∃ start ∈ queue, history.Descends start ancestor := by
  fun_induction walk history wanted seen queue with
  | case1 => exact .inl member
  | case2 => exact .inl member
  | case3 seen next others _ _ ih =>
      rcases ih member with known | ⟨start, queued, descends⟩
      · exact .inl known
      · exact .inr ⟨start, List.mem_cons_of_mem next queued, descends⟩
  | case4 seen next others _ _ ih =>
      rcases ih member with known | ⟨start, queued, descends⟩
      · rcases List.mem_cons.mp known with rfl | known
        · exact .inr ⟨ancestor, List.mem_cons_self, .refl⟩
        · exact .inl known
      · rcases List.mem_append.mp queued with queued | parent
        · exact .inr ⟨start, List.mem_cons_of_mem next queued, descends⟩
        · exact .inr ⟨next, List.mem_cons_self, .head parent descends⟩

/-- What a walk finds is what it looks for, and is reached from its queue. -/
theorem walk_finds (found : (history.walk wanted seen queue).found = some revision) :
    wanted revision = true ∧ ∃ start ∈ queue, history.Descends start revision := by
  fun_induction walk history wanted seen queue with
  | case1 => cases found
  | case2 seen next others sought =>
      cases found
      exact ⟨sought, _, List.mem_cons_self, .refl⟩
  | case3 seen next others _ _ ih =>
      obtain ⟨sought, start, queued, descends⟩ := ih found
      exact ⟨sought, start, List.mem_cons_of_mem next queued, descends⟩
  | case4 seen next others _ _ ih =>
      obtain ⟨sought, start, queued, descends⟩ := ih found
      rcases List.mem_append.mp queued with queued | parent
      · exact ⟨sought, start, List.mem_cons_of_mem next queued, descends⟩
      · exact ⟨sought, next, List.mem_cons_self, .head parent descends⟩

/-- A walk that looks for nothing ends with its whole queue seen, and with the parents of all that
it has seen. -/
theorem walk_closed
    (closed : ∀ revision ∈ seen, ∀ parent ∈ history.parents revision,
      parent ∈ seen ∨ parent ∈ queue) :
    (∀ revision ∈ queue, revision ∈ (history.walk (fun _ => false) seen queue).seen) ∧
      ∀ revision ∈ (history.walk (fun _ => false) seen queue).seen,
        ∀ parent ∈ history.parents revision,
          parent ∈ (history.walk (fun _ => false) seen queue).seen := by
  fun_induction walk history (fun _ => false) seen queue with
  | case1 seen =>
      refine ⟨List.forall_mem_nil _, fun revision member parent above => ?_⟩
      exact (closed revision member parent above).resolve_right List.not_mem_nil
  | case2 seen next others impossible => cases impossible
  | case3 seen next others _ known ih =>
      obtain ⟨queued, closed⟩ := ih fun revision member parent above =>
        (closed revision member parent above).elim .inl fun waiting =>
          (List.mem_cons.mp waiting).elim (fun same => .inl (same ▸ known)) .inr
      exact ⟨List.forall_mem_cons.mpr ⟨subset_walk known, queued⟩, closed⟩
  | case4 seen next others _ new ih =>
      obtain ⟨queued, closed⟩ := ih fun revision member parent above => by
        rcases List.mem_cons.mp member with rfl | member
        · exact .inr (List.mem_append_right others above)
        · rcases closed revision member parent above with known | waiting
          · exact .inl (List.mem_cons_of_mem next known)
          · rcases List.mem_cons.mp waiting with rfl | waiting
            · exact .inl List.mem_cons_self
            · exact .inr (List.mem_append_left _ waiting)
      refine ⟨List.forall_mem_cons.mpr ⟨subset_walk List.mem_cons_self, ?_⟩, closed⟩
      exact fun revision member => queued revision (List.mem_append_left _ member)

/-- The ancestors of a revision are those that it descends from. -/
theorem mem_ancestors_iff :
    ancestor ∈ history.ancestors revision ↔ history.Descends revision ancestor := by
  rw [ancestors]
  constructor
  · intro member
    rcases walk_sound member with impossible | ⟨start, queued, descends⟩
    · cases impossible
    · cases List.mem_singleton.mp queued
      exact descends
  · intro descends
    have nothing : ∀ other ∈ [], ∀ parent ∈ history.parents other,
      parent ∈ [] ∨ parent ∈ [revision] := List.forall_mem_nil _
    obtain ⟨queued, closed⟩ := walk_closed nothing
    induction descends with
    | refl => exact queued revision List.mem_cons_self
    | tail _ above ih => exact closed _ ih _ above

theorem parents_put (history : History) (id revision : String) (added : Commit) :
    History.parents (history.put id added) revision =
      if id = revision then added.parents else history.parents revision := by
  rw [parents, Dict.get?_put]
  by_cases same : id = revision
  · rw [if_pos same, if_pos same]
  · rw [if_neg same, if_neg same, parents]

/-- The ancestors of a revision are itself and those of its parents. -/
theorem mem_ancestors_iff_parents :
    ancestor ∈ history.ancestors revision ↔
      ancestor = revision ∨
        ∃ parent ∈ history.parents revision, ancestor ∈ history.ancestors parent := by
  simp only [mem_ancestors_iff]
  exact Relation.ReflTransGen.cases_head_iff.trans (or_congr eq_comm Iff.rfl)

/-- Ids with all of their parents among them have all of their ancestors among them. -/
theorem ancestors_subset {ids : List String} (closed : ∀ id ∈ ids, history.parents id ⊆ ids)
    (member : revision ∈ ids) : history.ancestors revision ⊆ ids := by
  intro ancestor
  rw [mem_ancestors_iff]
  intro descends
  induction descends with
  | refl => exact member
  | tail _ parent ih => exact closed _ ih parent

/-- A revision without parents has no ancestor but itself. -/
theorem ancestors_of_parents_eq_nil (orphan : history.parents revision = []) :
    history.ancestors revision = [revision] := by
  rw [ancestors, walk, if_neg Bool.false_ne_true, if_neg List.not_mem_nil, orphan, List.append_nil,
    walk]

/-- Two revisions without parents have started from nothing. -/
theorem mergeBase?_of_parents_eq_nil {other : String} (orphan : history.parents revision = [])
    (otherOrphan : history.parents other = []) (differ : other ≠ revision) :
    history.mergeBase? revision other = none := by
  have unwanted : ¬ decide (other ∈ history.ancestors revision) = true := by
    rw [ancestors_of_parents_eq_nil orphan, decide_eq_true_eq, List.mem_singleton]
    exact differ
  rw [mergeBase?, walk, if_neg unwanted, if_neg List.not_mem_nil, otherOrphan, List.append_nil, walk]

/-- Two revisions have started from a revision that both of them descend from. -/
theorem descends_of_mergeBase? {ours theirs : String}
    (common : history.mergeBase? ours theirs = some revision) :
    history.Descends ours revision ∧ history.Descends theirs revision := by
  obtain ⟨shared, start, queued, descends⟩ := walk_finds common
  rw [List.mem_singleton.mp queued] at descends
  exact ⟨mem_ancestors_iff.mp (of_decide_eq_true shared), descends⟩

/-- Whether each commit of a history is kept as it is in another one. -/
def KeptIn (history later : History) : Prop :=
  ∀ revision commit, history.get? revision = some commit → later.get? revision = some commit

theorem KeptIn.parents_eq {later : History} (kept : history.KeptIn later)
    (here : (history.get? revision).isSome) : later.parents revision = history.parents revision := by
  obtain ⟨commit, found⟩ := Option.isSome_iff_exists.mp here
  rw [parents, parents, found, kept revision commit found]

/-- Commits that are kept keep their parents. -/
theorem KeptIn.parents_subset {later : History} (kept : history.KeptIn later) (revision : String) :
    history.parents revision ⊆ later.parents revision := by
  intro parent above
  have here := Dict.mem_keys_iff.mp (mem_keys_of_parents (List.ne_nil_of_mem above))
  rw [kept.parents_eq here]
  exact above

/-- Ancestors stay ancestors where parents are only added. -/
theorem mem_ancestors_of_parents {later : History}
    (grown : ∀ revision, history.parents revision ⊆ later.parents revision)
    (member : ancestor ∈ history.ancestors revision) : ancestor ∈ later.ancestors revision := by
  rw [mem_ancestors_iff] at member ⊢
  exact Relation.ReflTransGen.mono (fun revision _ above => grown revision above) _ _ member

/-- Where all parents are kept, a kept revision has the same ancestors in every history that keeps
its commits. -/
theorem KeptIn.descends_iff {later : History} (kept : history.KeptIn later)
    (closed : ∀ revision, ∀ parent ∈ history.parents revision, (history.get? parent).isSome)
    (here : (history.get? revision).isSome) :
    later.Descends revision ancestor ↔
      history.Descends revision ancestor ∧ (history.get? ancestor).isSome := by
  constructor
  · intro descends
    induction descends with
    | refl => exact ⟨.refl, here⟩
    | tail _ above ih =>
        obtain ⟨earlier, between⟩ := ih
        rw [kept.parents_eq between] at above
        exact ⟨earlier.tail above, closed _ _ above⟩
  · rintro ⟨descends, _⟩
    exact Relation.ReflTransGen.mono (fun revision _ above => kept.parents_subset revision above) _ _
      descends

end SourceRecipe.History
