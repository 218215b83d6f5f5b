import SourceRecipe.Build.Run
import SourceRecipe.Proofs.Build.Manifest
import SourceRecipe.Proofs.Sequence

/-!
# What a run does

A run that succeeds has carried out every operation of the plan, in order, and its manifest records
them one by one.
-/

namespace SourceRecipe

variable {σ : Type}

theorem Call.attempt_eq_ok_iff {α : Type} {call : Call σ α} {world after : World σ}
    {answer : Except Fault α} :
    call.attempt world = (.ok answer, after) ↔ call world = (answer, after) := by
  rw [Call.attempt]
  cases call world with
  | mk found between =>
      constructor
      · intro same
        cases same
        rfl
      · intro same
        cases same
        rfl

namespace Run

variable {backend : Backend σ} {token : Token} {root : Path} {observer : Observer σ}

/-- One step of a run: it gives up where the token has fired, ends with an operation that fails, and
goes on from one that succeeds. -/
theorem runFrom_cons (total index : Nat) (operation : Operation) (others : List Operation)
    (world : World σ) :
    runFrom backend token root observer total index (operation :: others) world =
      if world.hasFired token then
        (.error (.stopped (before? index)),
          world.note .warning s!"Build cancelled before operation {index}")
      else
        match apply backend token root operation
            (observer (.starting index total operation) world) with
        | (.error fault, failed) =>
            (.error (errorOf index operation fault), noteFault operation fault failed)
        | (.ok unchanged, between) =>
            match runFrom backend token root observer total (index + 1) others
                (observer (.completed index total operation unchanged) between) with
            | (.error error, after) => (.error error, after)
            | (.ok entries, after) => (.ok (.ofOperation operation unchanged :: entries), after) := by
  rw [runFrom, run_bind]
  change (if world.hasFired token = true then _ else _ : Build σ _) world = _
  cases fired : world.hasFired token with
  | true => rfl
  | false =>
      rw [if_neg Bool.false_ne_true, if_neg Bool.false_ne_true]
      change (modify _ >>= _ : Build σ _) world = _
      rw [run_bind]
      change (Call.attempt _ >>= _ : Build σ _) _ = _
      rw [run_bind, Call.attempt]
      cases apply backend token root operation
          (observer (.starting index total operation) world) with
      | mk answer between =>
          cases answer with
          | error fault => rfl
          | ok unchanged =>
              change (runFrom _ _ _ _ _ _ _ >>= _ : Build σ _) _ = _
              rw [run_bind]
              dsimp only
              cases runFrom backend token root observer total (index + 1) others
                  (observer (.completed index total operation unchanged) between) with
              | mk result after =>
                  cases result with
                  | error error => rfl
                  | ok entries => rfl

/-- A run says that it begins, carries out the operations and says when it is finished. -/
theorem run_eq (version : Option String) (operations : List Operation) (world : World σ) :
    run backend token root observer version operations world =
      match runFrom backend token root observer operations.length 0 operations
          (observer (.began operations.length) world) with
      | (.ok entries, between) => (.ok ⟨version, entries⟩, observer .finished between)
      | (.error error, after) => (.error error, after) := by
  change (runFrom _ _ _ _ _ _ _ >>= _ : Build σ Manifest) _ = _
  rw [run_bind]
  cases runFrom backend token root observer operations.length 0 operations
      (observer (.began operations.length) world) with
  | mk result after => cases result <;> rfl

/-- A run goes on from an operation when the token has not fired and the operation succeeds. -/
theorem runFrom_cons_eq_ok_iff {total index : Nat} {operation : Operation}
    {others : List Operation} {world after : World σ} {entries : List ManifestEntry} :
    runFrom backend token root observer total index (operation :: others) world =
        (.ok entries, after) ↔
      world.hasFired token = false ∧
        ∃ unchanged between rest,
          apply backend token root operation (observer (.starting index total operation) world) =
            (.ok unchanged, between) ∧
          runFrom backend token root observer total (index + 1) others
            (observer (.completed index total operation unchanged) between) = (.ok rest, after) ∧
          entries = .ofOperation operation unchanged :: rest := by
  rw [runFrom_cons]
  constructor
  · intro ran
    cases fired : world.hasFired token with
    | true =>
        rw [fired, if_pos rfl] at ran
        cases ran
    | false =>
        rw [fired, if_neg Bool.false_ne_true] at ran
        split at ran
        · cases ran
        · rename_i unchanged between applied
          split at ran
          · cases ran
          · rename_i rest last later
            cases ran
            exact ⟨rfl, unchanged, between, rest, applied, later, rfl⟩
  · rintro ⟨quiet, unchanged, between, rest, applied, later, rfl⟩
    rw [quiet, if_neg Bool.false_ne_true, applied]
    simp only [later]

/-- What observers and operations keep, a run keeps, and what every operation that succeeds means
holds of each operation of the plan. -/
theorem runFrom_sound {Keeps : World σ → Prop} {Means : Operation → Prop}
    (observes : ∀ event before, Keeps before → Keeps (observer event before))
    (applies : ∀ operation before unchanged later, Keeps before →
      apply backend token root operation before = (.ok unchanged, later) →
      Means operation ∧ Keeps later)
    {total index : Nat} {operations : List Operation} {world after : World σ}
    {entries : List ManifestEntry}
    (ran : runFrom backend token root observer total index operations world = (.ok entries, after))
    (kept : Keeps world) :
    Manifest.Records operations entries ∧ (∀ operation ∈ operations, Means operation) ∧
      Keeps after := by
  induction operations generalizing index world entries with
  | nil =>
      obtain ⟨rfl, rfl⟩ := run_pure_eq_ok_iff.mp ran
      exact ⟨.nil, List.forall_mem_nil _, kept⟩
  | cons operation others ih =>
      obtain ⟨_, unchanged, between, rest, applied, later, rfl⟩ := runFrom_cons_eq_ok_iff.mp ran
      obtain ⟨means, kept⟩ := applies _ _ _ _ (observes _ _ kept) applied
      obtain ⟨records, all, kept⟩ := ih later (observes _ _ kept)
      exact ⟨.cons ⟨unchanged, rfl⟩ records, List.forall_mem_cons.mpr ⟨means, all⟩, kept⟩

theorem run_sound (Keeps : World σ → Prop) {Means : Operation → Prop}
    (observes : ∀ event before, Keeps before → Keeps (observer event before))
    (applies : ∀ operation before unchanged later, Keeps before →
      apply backend token root operation before = (.ok unchanged, later) →
      Means operation ∧ Keeps later)
    {version : Option String} {operations : List Operation} {world after : World σ}
    {manifest : Manifest}
    (ran : run backend token root observer version operations world = (.ok manifest, after))
    (kept : Keeps world) :
    ∃ entries, manifest = ⟨version, entries⟩ ∧ Manifest.Records operations entries ∧
      (∀ operation ∈ operations, Means operation) ∧ Keeps after := by
  rw [run] at ran
  simp only [run_bind_eq_ok_iff, run_modify_eq_ok_iff, run_pure_eq_ok_iff] at ran
  obtain ⟨_, _, rfl, entries, between, ran, _, _, rfl, rfl, rfl⟩ := ran
  obtain ⟨records, all, kept⟩ := runFrom_sound observes applies ran (observes _ _ kept)
  exact ⟨entries, rfl, records, all, observes _ _ kept⟩

end Run

end SourceRecipe
