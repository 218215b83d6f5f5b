import Mathlib.Data.List.Forall2
import SourceRecipe.Build.Resolution
import SourceRecipe.Proofs.Sequence
import SourceRecipe.Proofs.Tree.Listing

/-!
# Pinned trees are what the look-ups found

A tree is pinned when every distinct branch of it was found, and then each of its branches, also
where it is repeated, has the revision that its look-up answered.
-/

namespace SourceRecipe.Resolution

variable {σ : Type}

/-! ## Answers together -/

theorem combine_cons_ok {α : Type} (first : α) (others : List (Outcome α)) :
    combine (some (.ok first) :: others) = (combine others).map (first :: ·) := by
  have errors : (some (.ok first) :: others).findSome? Outcome.error? =
      others.findSome? Outcome.error? := rfl
  rw [combine, combine, errors, List.any_cons, Option.isNone_some, Bool.false_or]
  cases others.findSome? Outcome.error? with
  | some error => rfl
  | none =>
      cases others.any Option.isNone with
      | true => rfl
      | false => rfl

/-- Some look-ups give answers together when each of them gives its own. -/
theorem combine_eq_ok_iff {α : Type} {outcomes : List (Outcome α)} {values : List α} :
    combine outcomes = .ok values ↔ outcomes = values.map fun value => some (.ok value) := by
  induction outcomes generalizing values with
  | nil =>
      constructor
      · intro combined
        cases combined
        rfl
      · intro same
        rw [List.map_eq_nil_iff.mp same.symm]
        rfl
  | cons outcome others ih =>
      match outcome with
      | none =>
          constructor
          · intro combined
            rw [combine, List.any_cons, Option.isNone_none, Bool.true_or, if_pos rfl] at combined
            split at combined
            · cases combined
            · cases combined
          · intro same
            cases values with
            | nil => cases same
            | cons value values => cases same
      | some (.error error) =>
          constructor
          · intro combined
            cases combined
          · intro same
            cases values with
            | nil => cases same
            | cons value values => cases same
      | some (.ok first) =>
          rw [combine_cons_ok]
          constructor
          · intro combined
            cases rest : combine others with
            | error error =>
                rw [rest] at combined
                cases combined
            | ok found =>
                rw [rest] at combined
                cases combined
                rw [List.map_cons, ← ih.mp rest]
          · intro same
            cases values with
            | nil => cases same
            | cons value values =>
                obtain ⟨answer, rest⟩ := List.cons.inj same
                cases answer
                rw [ih.mpr rest]
                rfl

/-! ## Looking up -/

section

variable {backend : Backend σ} {token : Token}

/-- The outcome of the first look-up comes first, and the others go on after it. -/
theorem lookupAll_cons_eq {source : Source} {others : List Source} {answer : Except Fault String}
    {world between : World σ}
    (looked : backend.lookup token source.location source.specifier world = (answer, between)) :
    lookupAll backend token false (source :: others) world =
      (some (answer.mapError (errorOf source)) ::
        (lookupAll backend token (!(answer.mapError (errorOf source)).isOk) others between).1,
        (lookupAll backend token (!(answer.mapError (errorOf source)).isOk) others between).2) := by
  simp only [lookupAll, Bool.false_eq_true, if_false, bind, StateT.bind, lookup, looked]
  rfl

end

/-! ## What is asked for -/

/-- A branch is asked for where it stands first, unless it is known. -/
theorem unknown_eq_eraseDups (known : Revisions) (seen sources : List Source) :
    unknown known seen sources =
      (sources.filter fun source => known.get? source = none ∧ source ∉ seen).eraseDups := by
  induction sources generalizing seen with
  | nil => rfl
  | cons source others ih =>
      rw [unknown]
      split
      · rename_i dropped
        rw [ih, List.filter_cons_of_neg]
        rw [decide_eq_true_iff]
        rintro ⟨new, unseen⟩
        rw [new] at dropped
        exact dropped.elim Bool.false_ne_true unseen
      · rename_i kept
        obtain ⟨new, unseen⟩ := not_or.mp kept
        rw [ih, List.filter_cons_of_pos, List.eraseDups_cons, List.filter_filter]
        · congr 3
          funext other
          rw [Bool.eq_iff_iff]
          simp only [decide_eq_true_iff, Bool.and_eq_true, Bool.not_eq_true', beq_eq_false_iff_ne,
            List.mem_cons, not_or]
          tauto
        · rw [decide_eq_true_iff]
          exact ⟨Option.not_isSome_iff_eq_none.mp new, unseen⟩

theorem mem_unknown_iff {known : Revisions} {seen sources : List Source} {source : Source} :
    source ∈ unknown known seen sources ↔
      source ∈ sources ∧ known.get? source = none ∧ source ∉ seen := by
  rw [unknown_eq_eraseDups, List.mem_eraseDups, List.mem_filter, decide_eq_true_iff]

/-! ## What is remembered -/

theorem get?_remember_sound {Means : Source → String → Prop} {known : Revisions}
    {sources : List Source} {revisions : List String} {source : Source} {revision : String}
    (means : List.Forall₂ Means sources revisions)
    (kept : (remember known (sources.zip revisions)).get? source = some revision) :
    Means source revision ∨ known.get? source = some revision := by
  induction means generalizing known with
  | nil => exact .inr kept
  | @cons first found _ _ one _ ih =>
      rcases ih kept with later | before
      · exact .inl later
      · rw [Dict.get?_put] at before
        split at before
        · rename_i same
          cases before
          exact .inl (same ▸ one)
        · exact .inr before

theorem get?_remember_complete {answers : Source → String} {known : Revisions}
    {sources : List Source} {source : Source}
    (either : source ∈ sources ∨ known.get? source = some (answers source)) :
    (remember known (sources.zip (sources.map answers))).get? source = some (answers source) := by
  induction sources generalizing known with
  | nil => exact either.resolve_left (List.not_mem_nil)
  | cons first others ih =>
      apply ih
      rw [Dict.get?_put]
      by_cases same : first = source
      · rw [if_pos same, same]
        exact .inr rfl
      · rw [if_neg same]
        apply either.imp_left
        intro member
        exact (List.mem_cons.mp member).resolve_left (Ne.symm same)

/-! ## Pinned trees -/

def pinnedBy (answers : Source → String) (source : Source) : Pinned :=
  ⟨source, answers source⟩

def answerOf (known : Revisions) (source : Source) : String :=
  (known.get? source).getD ""

theorem pin_eq_ok_iff {known : Revisions} {source : Source} {pinned : Pinned} :
    pin known source = .ok pinned ↔
      (known.get? source).isSome ∧ pinned = pinnedBy (answerOf known) source := by
  rw [pin, pinnedBy, answerOf]
  cases known.get? source with
  | none =>
      constructor
      · intro impossible
        cases impossible
      · rintro ⟨impossible, _⟩
        cases impossible
  | some revision =>
      constructor
      · intro same
        cases same
        exact ⟨rfl, rfl⟩
      · rintro ⟨_, rfl⟩
        rfl

theorem pinBlock_eq_ok_iff {known : Revisions} {block : Instructions Source}
    {pinned : Instructions Pinned} :
    pinBlock known block = .ok pinned ↔
      (∀ source ∈ block.branches, (known.get? source).isSome) ∧
        pinned = block.map (pinnedBy (answerOf known)) := by
  induction block generalizing pinned with
  | done =>
      constructor
      · intro same
        cases same
        exact ⟨List.forall_mem_nil _, rfl⟩
      · rintro ⟨_, rfl⟩
        rfl
  | step nickname directive branch inner later innerIh laterIh =>
      rw [pinBlock]
      simp only [bind_eq_ok_iff, pin_eq_ok_iff, innerIh, laterIh, Instructions.branches,
        List.forall_mem_cons, List.forall_mem_append, Instructions.map]
      constructor
      · rintro ⟨_, ⟨one, rfl⟩, _, ⟨under, rfl⟩, _, ⟨after, rfl⟩, same⟩
        cases same
        exact ⟨⟨one, under, after⟩, rfl⟩
      · rintro ⟨⟨one, under, after⟩, rfl⟩
        exact ⟨_, ⟨one, rfl⟩, _, ⟨under, rfl⟩, _, ⟨after, rfl⟩, rfl⟩

theorem pinTree_eq_ok_iff {known : Revisions} {tree : Tree Source} {pinned : Tree Pinned} :
    pinTree known tree = .ok pinned ↔
      (∀ source ∈ tree.branches, (known.get? source).isSome) ∧
        pinned = tree.map (pinnedBy (answerOf known)) := by
  rw [pinTree]
  simp only [bind_eq_ok_iff, pin_eq_ok_iff, pinBlock_eq_ok_iff, Tree.branches,
    List.forall_mem_cons, Tree.map]
  constructor
  · rintro ⟨_, ⟨base, rfl⟩, _, ⟨block, rfl⟩, same⟩
    cases same
    exact ⟨⟨base, block⟩, rfl⟩
  · rintro ⟨⟨base, block⟩, rfl⟩
    exact ⟨_, ⟨base, rfl⟩, _, ⟨block, rfl⟩, rfl⟩

/-! ## Resolution -/

section

variable {known later : Revisions} {tree : Tree Source} {pinned : Tree Pinned}
  {world after : World σ} {Keeps : World σ → Prop}

def noteAll (found : List (Source × String)) (world : World σ) : World σ :=
  found.foldl (fun before (source, revision) => before.note .info (foundText source revision)) world

theorem keeps_noteAll (notes : ∀ level text before, Keeps before → Keeps (before.note level text))
    (found : List (Source × String)) (kept : Keeps world) : Keeps (noteAll found world) := by
  induction found generalizing world with
  | nil => exact kept
  | cons first others ih => exact ih (notes _ _ _ kept)

/-- Look-ups that fail together pin nothing, and nothing of them is remembered. -/
theorem resolveBy_eq_of_error {look : List Source → StateM (World σ) (List (Outcome String))}
    {outcomes : List (Outcome String)} {error : BuildError}
    (looked : look (pending known tree) world = (outcomes, after))
    (failed : combine outcomes = .error error) :
    resolveBy look known tree world = ((.error error, known), after) := by
  simp only [resolveBy, bind, StateT.bind, looked, failed]
  rfl

/-- The answers that look-ups give together are remembered, and then the tree is pinned. -/
theorem resolveBy_eq_of_ok {look : List Source → StateM (World σ) (List (Outcome String))}
    {outcomes : List (Outcome String)} {revisions : List String}
    (looked : look (pending known tree) world = (outcomes, after))
    (combined : combine outcomes = .ok revisions) :
    resolveBy look known tree world =
      ((pinTree (remember known ((pending known tree).zip revisions)) tree,
        remember known ((pending known tree).zip revisions)),
        noteAll ((pending known tree).zip revisions) after) := by
  simp only [resolveBy, bind, StateT.bind, looked, combined]
  rfl

theorem resolveBy_eq_ok_iff {look : List Source → StateM (World σ) (List (Outcome String))} :
    resolveBy look known tree world = ((.ok pinned, later), after) ↔
      ∃ revisions between,
        look (pending known tree) world =
          (revisions.map fun found => some (.ok found), between) ∧
        later = remember known ((pending known tree).zip revisions) ∧
        pinTree later tree = .ok pinned ∧
        after = noteAll ((pending known tree).zip revisions) between := by
  cases looked : look (pending known tree) world with
  | mk outcomes between =>
      cases combined : combine outcomes with
      | error error =>
          rw [resolveBy_eq_of_error looked combined]
          constructor
          · intro impossible
            cases impossible
          · rintro ⟨revisions, _, same, _⟩
            obtain ⟨answers, rfl⟩ := Prod.mk.inj same
            rw [combine_eq_ok_iff.mpr answers] at combined
            cases combined
      | ok revisions =>
          rw [resolveBy_eq_of_ok looked combined]
          constructor
          · intro resolved
            obtain ⟨answers, rfl⟩ := Prod.mk.inj resolved
            obtain ⟨trees, rfl⟩ := Prod.mk.inj answers
            exact ⟨revisions, between, by rw [combine_eq_ok_iff.mp combined], rfl, trees, rfl⟩
          · rintro ⟨found, _, same, rfl, trees, rfl⟩
            obtain ⟨answers, rfl⟩ := Prod.mk.inj same
            cases combined.symm.trans (combine_eq_ok_iff.mpr answers)
            rw [trees]

/-- A pinned tree has at each branch a revision that its look-up means, if look-ups that all succeed
mean what they give. -/
theorem resolveBy_sound {look : List Source → StateM (World σ) (List (Outcome String))}
    {Means : Source → String → Prop}
    (looks : ∀ revisions between,
      look (pending .empty tree) world =
        (revisions.map fun found => some (.ok found), between) →
      List.Forall₂ Means (pending .empty tree) revisions ∧ Keeps between)
    (notes : ∀ level text before, Keeps before → Keeps (before.note level text))
    (resolved : resolveBy look .empty tree world = ((.ok pinned, later), after)) :
    ∃ answers, pinned = tree.map (pinnedBy answers) ∧
      (∀ source ∈ tree.branches, Means source (answers source)) ∧ Keeps after := by
  obtain ⟨revisions, between, looked, rfl, trees, rfl⟩ := resolveBy_eq_ok_iff.mp resolved
  obtain ⟨means, kept⟩ := looks revisions between looked
  obtain ⟨found, rfl⟩ := pinTree_eq_ok_iff.mp trees
  refine ⟨_, rfl, ?_, keeps_noteAll notes _ kept⟩
  intro source member
  obtain ⟨revision, known⟩ := Option.isSome_iff_exists.mp (found source member)
  rw [answerOf, known, Option.getD_some]
  rcases get?_remember_sound means known with found | impossible
  · exact found
  · rw [Dict.get?_empty] at impossible
    cases impossible

/-- A tree is pinned when the look-ups for it give an answer to each branch. -/
theorem resolveBy_complete {look : List Source → StateM (World σ) (List (Outcome String))}
    {answers : Source → String} {between : World σ}
    (looked : look (pending .empty tree) world =
      (((pending .empty tree).map answers).map fun found => some (.ok found), between))
    (notes : ∀ level text before, Keeps before → Keeps (before.note level text))
    (kept : Keeps between) :
    ∃ later after, resolveBy look .empty tree world =
      ((.ok (tree.map (pinnedBy answers)), later), after) ∧ Keeps after := by
  have known {source : Source} (member : source ∈ tree.branches) :
      (remember .empty ((pending .empty tree).zip ((pending .empty tree).map answers))).get?
        source = some (answers source) :=
    get?_remember_complete (.inl (mem_unknown_iff.mpr ⟨member, rfl, List.not_mem_nil⟩))
  refine ⟨_, _, resolveBy_eq_ok_iff.mpr ⟨_, between, looked, rfl, ?_, rfl⟩,
    keeps_noteAll notes _ kept⟩
  refine pinTree_eq_ok_iff.mpr ⟨fun source member => by rw [known member]; rfl, ?_⟩
  apply Tree.map_eq_map_iff.mpr
  intro source member
  rw [pinnedBy, pinnedBy, answerOf, known member, Option.getD_some]

end

end SourceRecipe.Resolution
