import Mathlib.Data.List.TakeWhile
import SourceRecipe.Build.Session
import SourceRecipe.Proofs.Sequence
import SourceRecipe.Proofs.Time.RoundTrip

/-!
# Versions

Nothing but digits and the signs of years is put into a version template, so a template that is a
token gives a version that is one.
-/

namespace SourceRecipe

open SourceRecipe.Text SourceRecipe.Time SourceRecipe.Version

variable {σ : Type}

theorem Time.Instant.isToken_stamp (t : Instant) : IsToken t.stamp := by
  refine isToken_of_figures ?_ t.isFigure_stamp
  rw [Instant.stamp]
  exact List.append_ne_nil_of_right_ne_nil _ (padded_ne_nil 2 _)

theorem Version.firstPlaceholder?_eq_none_iff {template : List Char} :
    firstPlaceholder? template = none ↔ '\x7b' ∉ template := by
  constructor
  · intro first member
    rw [firstPlaceholder?] at first
    cases rest : template.dropWhile (· != '\x7b') with
    | nil => exact absurd (List.dropWhile_eq_nil_iff.mp rest _ member) (by decide)
    | cons c others =>
        simp only [rest] at first
        split at first
        · cases first
        · cases first
  · intro absent
    cases first : firstPlaceholder? template with
    | none => rfl
    | some placeholder =>
        obtain ⟨before, after, rfl, _, leads⟩ := eq_of_firstPlaceholder? first
        refine absurd (List.mem_append_left after ?_) absent
        exact List.mem_append_right before (List.mem_of_head? leads)

namespace Numbering

variable {backend : Backend σ} {token : Token} {tree : Tree Pinned} {written : String}

theorem expandNamed_of_none {template : List Char} (first : firstPlaceholder? template = none) :
    expandNamed backend token tree written template = pure template := by
  -- The match keeps its equation for the termination, so it is split instead of rewritten.
  rw [expandNamed]
  split
  · rfl
  · rename_i placeholder other
    rw [first] at other
    cases other

/-- The first placeholder decides on a step. -/
theorem expandNamed_of_some {template placeholder : List Char}
    (first : firstPlaceholder? template = some placeholder) :
    expandNamed backend token tree written template =
      match placeholderNickname? placeholder with
      | none => throw (.version (.unknownPlaceholder (String.ofList placeholder) written))
      | some nickname =>
          match tree.find? (String.ofList nickname) with
          | none => throw (.version (.unknownNickname (String.ofList nickname) written))
          | some step =>
              revnoOf backend token step.branch >>= fun revno =>
                expandNamed backend token tree written
                  (substituteRevno (some (String.ofList nickname)) revno template) := by
  rw [expandNamed]
  split
  · rename_i other
    rw [first] at other
    cases other
  · rename_i other same
    rw [first] at same
    cases same
    cases placeholderNickname? placeholder with
    | none => rfl
    | some nickname => rfl

/-- What a count of revisions keeps, a version keeps, and what holds of a template whatever numbers
are put in holds of its version, which has no placeholder left. -/
theorem expandNamed_eq_ok {template version : List Char} {world after : World σ}
    {Keeps : World σ → Prop} {Holds : List Char → Prop}
    (counts : ∀ branch before revno later, Keeps before →
      revnoOf backend token branch before = (.ok revno, later) → Keeps later)
    (puts : ∀ nickname revno text, Holds text → Holds (substituteRevno nickname revno text))
    (expanded : expandNamed backend token tree written template world = (.ok version, after))
    (holds : Holds template) (kept : Keeps world) :
    (Holds version ∧ '\x7b' ∉ version) ∧ Keeps after := by
  cases first : firstPlaceholder? template with
  | none =>
      rw [expandNamed_of_none first] at expanded
      obtain ⟨rfl, rfl⟩ := run_pure_eq_ok_iff.mp expanded
      exact ⟨⟨holds, firstPlaceholder?_eq_none_iff.mp first⟩, kept⟩
  | some placeholder =>
      rw [expandNamed_of_some first] at expanded
      cases named : placeholderNickname? placeholder with
      | none =>
          rw [named] at expanded
          cases expanded
      | some nickname =>
          rw [named] at expanded
          cases found : tree.find? (String.ofList nickname) with
          | none =>
              simp only [found] at expanded
              cases expanded
          | some step =>
              simp only [found] at expanded
              obtain ⟨revno, between, counted, rest⟩ := run_bind_eq_ok_iff.mp expanded
              have fewer := count_substituteRevno_lt revno first named
              exact expandNamed_eq_ok counts puts rest (puts _ _ _ holds)
                (counts _ _ _ _ kept counted)
termination_by template.count '\x7b'

theorem expand_eq_ok {template version : List Char} {world after : World σ}
    {Keeps : World σ → Prop} {Holds : List Char → Prop}
    (counts : ∀ branch before revno later, Keeps before →
      revnoOf backend token branch before = (.ok revno, later) → Keeps later)
    (puts : ∀ nickname revno text, Holds text → Holds (substituteRevno nickname revno text))
    (expanded : expand backend token tree template world = (.ok version, after))
    (holds : Holds template) (kept : Keeps world) :
    (Holds version ∧ '\x7b' ∉ version) ∧ Keeps after := by
  rw [expand] at expanded
  split at expanded
  · obtain ⟨revno, between, counted, rest⟩ := run_bind_eq_ok_iff.mp expanded
    exact expandNamed_eq_ok counts puts rest (puts _ _ _ holds) (counts _ _ _ _ kept counted)
  · exact expandNamed_eq_ok counts puts expanded holds kept

/-- A template without opening braces is its own version. -/
theorem expand_of_not_mem {template : List Char} (clear : '\x7b' ∉ template) :
    expand backend token tree template = pure template := by
  have none : needsRevno none template = false := occursIn_of_not_mem rfl clear
  rw [expand, none, if_neg Bool.false_ne_true,
    expandNamed_of_none (firstPlaceholder?_eq_none_iff.mpr clear)]

end Numbering

namespace Session

variable {backend : Backend σ} {token : Token} {tree : Tree Pinned}

/-- What holds of a template whatever numbers are put in holds of the version, which has no
placeholder. -/
theorem versionOf_eq_ok {template : Option (List Char)} {version : Option String}
    {world after : World σ} (Keeps : World σ → Prop) (Holds : List Char → Prop)
    (counts : ∀ branch before revno later, Keeps before →
      Numbering.revnoOf backend token branch before = (.ok revno, later) → Keeps later)
    (notes : ∀ level text before, Keeps before → Keeps (before.note level text))
    (puts : ∀ nickname revno text, Holds text → Holds (substituteRevno nickname revno text))
    (made : versionOf backend token tree template world = (.ok version, after))
    (holds : ∀ text ∈ template, Holds text) (kept : Keeps world) :
    (∀ text ∈ version, Holds text.toList ∧ '\x7b' ∉ text.toList) ∧ Keeps after := by
  cases template with
  | none =>
      obtain ⟨rfl, rfl⟩ := run_pure_eq_ok_iff.mp made
      exact ⟨fun _ impossible => (by cases impossible), kept⟩
  | some text =>
      rw [versionOf] at made
      simp only [run_bind_eq_ok_iff, run_modify_eq_ok_iff, run_pure_eq_ok_iff] at made
      obtain ⟨expansion, between, expanded, _, _, rfl, rfl, rfl⟩ := made
      obtain ⟨whole, kept⟩ := Numbering.expand_eq_ok counts puts expanded (holds text rfl) kept
      refine ⟨fun _ same => ?_, notes _ _ _ kept⟩
      cases same
      rw [String.toList_ofList]
      exact whole

/-- A version without opening braces stands for itself. -/
theorem versionOf_of_not_mem {version : Option String}
    (clear : ∀ text ∈ version, '\x7b' ∉ text.toList) (start : Instant) (world : World σ) :
    ∃ after, versionOf backend token tree
        (version.map fun text => substituteTime start text.toList) world = (.ok version, after) ∧
      after.store = world.store ∧ after.signals = world.signals ∧ after.files = world.files := by
  cases version with
  | none => exact ⟨world, rfl, rfl, rfl, rfl⟩
  | some text =>
      have same : substituteTime start text.toList = text.toList :=
        replace_of_not_mem rfl (clear text rfl) _
      refine ⟨world.note .info s!"Version {text}", ?_, rfl, rfl, rfl⟩
      rw [Option.map_some, same, versionOf, Numbering.expand_of_not_mem (clear text rfl)]
      simp only [run_bind_eq_ok_iff, run_modify_eq_ok_iff, run_pure_eq_ok_iff]
      refine ⟨_, _, ⟨rfl, rfl⟩, (), _, ?_, congrArg some String.ofList_toList, rfl⟩
      rw [String.ofList_toList]

end Session

end SourceRecipe
