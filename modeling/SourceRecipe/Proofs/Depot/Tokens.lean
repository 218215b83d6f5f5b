import SourceRecipe.Proofs.Depot.Requests
import SourceRecipe.Proofs.Text.Tokens

/-!
# Depots whose revision ids are tokens

The ids of merges are tokens, so a depot in which all ids are tokens stays one.
-/

namespace SourceRecipe.Depot

open SourceRecipe.Text

def HasTokenIds (depot : Depot) : Prop :=
  ∀ revision ∈ depot.history.keys, IsToken revision.toList

instance (depot : Depot) : Decidable depot.HasTokenIds :=
  inferInstanceAs (Decidable (∀ revision ∈ depot.history.keys, IsToken revision.toList))

theorem isToken_mergeId (number : Nat) : IsToken (mergeId number).toList := by
  have whole : (mergeId number).toList = "merge-".toList ++ numeral number :=
    String.toList_append
  have digits := isToken_numeral number
  rw [whole]
  exact IsToken.append (by decide) digits.isWord.2 digits.isFlat

theorem HasTokenIds.isToken {depot : Depot} (tokens : depot.HasTokenIds) {revision : String}
    {commit : Commit} (stored : depot.stored revision = .ok commit) : IsToken revision.toList := by
  refine tokens revision (Dict.mem_keys_iff.mpr ?_)
  rw [Depot.stored] at stored
  cases kept : depot.history.get? revision with
  | none =>
      rw [kept] at stored
      cases stored
  | some other => rfl

theorem HasTokenIds.put {depot : Depot} (tokens : depot.HasTokenIds) {id : String}
    (token : IsToken id.toList) (commit : Commit) :
    HasTokenIds { depot with history := depot.history.put id commit } := by
  intro revision member
  rw [Dict.mem_keys_iff, Dict.get?_put] at member
  by_cases same : id = revision
  · rw [← same]
    exact token
  · rw [if_neg same] at member
    exact tokens revision (Dict.mem_keys_iff.mpr member)

/-- A checkout is of a token and keeps no further revision. -/
theorem HasTokenIds.checkout {depot after : Depot} (tokens : depot.HasTokenIds)
    {branch revision : String} {target : Path} {answer : Unit}
    (made : Depot.checkout branch revision target depot = (.ok answer, after)) :
    IsToken revision.toList ∧ after.HasTokenIds := by
  obtain ⟨_, _, _, commit, _, _, stored, rfl⟩ := checkout_eq_ok_iff.mp made
  exact ⟨tokens.isToken stored, tokens⟩

/-- A merge is of a token and keeps the revision of the merge at most. -/
theorem HasTokenIds.merge {depot after : Depot} (tokens : depot.HasTokenIds) {path : Path}
    {branch revision message : String} {outcome : MergeOutcome}
    (merged : Depot.merge path branch revision message depot = (.ok outcome, after)) :
    IsToken revision.toList ∧ after.HasTokenIds := by
  obtain ⟨_, tree, theirs, _, stored, ⟨_, _, rfl⟩ | ⟨_, _, base, head, _, _, _, rfl⟩⟩ :=
    merge_eq_ok_iff.mp merged
  · exact ⟨tokens.isToken stored, tokens⟩
  · exact ⟨tokens.isToken stored, tokens.put (isToken_mergeId _) _⟩

end SourceRecipe.Depot
