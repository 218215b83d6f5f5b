import SourceRecipe.Depot.Files
import SourceRecipe.Time.Instant

/-!
# Histories

A history keeps commits under revision ids.  Each names its parents, which may be missing, and
nothing keeps ids from forming a cycle; the walk through parents ends all the same, because it
goes on from an id once at most.
-/

namespace SourceRecipe

open SourceRecipe.Time

structure Commit where
  parents : List String
  time : Instant
  message : String
  files : Files
  deriving DecidableEq

abbrev History := Dict String Commit

namespace History

/-- The parents of a revision; one that is not kept has none. -/
def parents (history : History) (revision : String) : List String :=
  match history.get? revision with
  | none => []
  | some commit => commit.parents

def unseen (history : History) (seen : List String) : List String :=
  history.keys.filter (fun revision => decide (revision ∉ seen))

theorem unseen_le (history : History) (revision : String) (seen : List String) :
    (history.unseen (revision :: seen)).length ≤ (history.unseen seen).length := by
  unfold unseen
  induction history.keys with
  | nil => simp
  | cons key keys ih =>
      simp only [List.filter_cons, List.mem_cons, not_or, Bool.decide_and, Bool.and_eq_true,
        decide_eq_true_eq]
      by_cases hs : key ∈ seen
      · simpa [hs] using ih
      · by_cases hr : key = revision
        · simp only [hr, not_true_eq_false, false_and, ↓reduceIte]
          have := ih
          simp only [List.mem_cons, not_or, Bool.decide_and] at this
          split
          · simp only [List.length_cons]
            omega
          · exact this
        · have := ih
          simp only [List.mem_cons, not_or, Bool.decide_and] at this
          simp only [hr, hs, not_false_eq_true, and_self, ↓reduceIte, List.length_cons]
          omega

theorem unseen_lt (history : History) {revision : String} {seen : List String}
    (kept : revision ∈ history.keys) (new : revision ∉ seen) :
    (history.unseen (revision :: seen)).length < (history.unseen seen).length := by
  unfold unseen
  have split : ∀ keys : List String, (keys.filter fun key => decide (key ∉ revision :: seen)) =
      (keys.filter fun key => decide (key ∉ seen)).filter fun key => decide (key ≠ revision) := by
    intro keys
    rw [List.filter_filter]
    congr 1
    funext key
    simp
  rw [split]
  apply List.length_filter_lt_length_iff_exists.2
  exact ⟨revision, List.mem_filter.2 ⟨kept, by simpa using new⟩, by simp⟩

theorem mem_keys_of_parents {history : History} {revision : String}
    (any : history.parents revision ≠ []) : revision ∈ history.keys := by
  rw [Dict.mem_keys_iff]
  unfold parents at any
  cases h : history.get? revision with
  | none => simp [h] at any
  | some commit => rfl

/-- How a walk ended: at a revision that was looked for, or with nowhere left to go. -/
structure Walk where
  found : Option String
  seen : List String
  deriving DecidableEq

/-- Walks through the parents of the revisions in a queue, nearest first, until a revision is
one that is looked for.  `seen` are the revisions that the walk has gone on from. -/
def walk (history : History) (wanted : String → Bool) (seen queue : List String) : Walk :=
  match queue with
  | [] => ⟨none, seen⟩
  | next :: others =>
      if wanted next then ⟨some next, seen⟩
      else if next ∈ seen then walk history wanted seen others
      else walk history wanted (next :: seen) (others ++ history.parents next)
termination_by ((history.unseen seen).length, queue.length)
decreasing_by
  · exact Prod.Lex.right _ (by simp)
  · rename_i new
    by_cases h : history.parents next = []
    · have := history.unseen_le next seen
      rcases Nat.lt_or_eq_of_le this with lt | eq
      · exact Prod.Lex.left _ _ lt
      · rw [h, eq]
        exact Prod.Lex.right _ (by simp)
    · exact Prod.Lex.left _ _ (history.unseen_lt (mem_keys_of_parents h) new)

/-- The revisions reached from one by going to parents any number of times. -/
def ancestors (history : History) (revision : String) : List String :=
  (history.walk (fun _ => false) [] [revision]).seen

/-- A common ancestor of two revisions that is nearest to the second one. -/
def mergeBase? (history : History) (ours theirs : String) : Option String :=
  let reached := history.ancestors ours
  (history.walk (fun revision => decide (revision ∈ reached)) [] [theirs]).found

end History

end SourceRecipe
