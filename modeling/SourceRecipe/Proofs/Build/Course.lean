import SourceRecipe.Proofs.Build.Run

/-!
# The course of a run

A run comes to an operation when all operations before it have been carried out and the token has
not fired.  A run that fails does so at one operation: it comes to it and the operation fails, or
the token has fired by then.
-/

namespace SourceRecipe.Run

variable {σ : Type} {backend : Backend σ} {token : Token} {root : Path} {observer : Observer σ}
  {operations done : List Operation} {operation : Operation} {world there : World σ}

/-- Whether a run of a plan in `world` comes to an operation in the world `there`, when the
operations before it have been carried out. -/
structure Comes (backend : Backend σ) (token : Token) (root : Path) (observer : Observer σ)
    (operations : List Operation) (world : World σ) (done : List Operation) (operation : Operation)
    (there : World σ) : Prop where
  planned : ∃ later, operations = done ++ operation :: later
  carried : ∃ entries between,
    runFrom backend token root observer operations.length 0 done
      (observer (.began operations.length) world) = (.ok entries, between) ∧
    between.hasFired token = false ∧
    there = observer (.starting done.length operations.length operation) between

/-- A run comes to an operation after a run of those before it. -/
theorem comes_of_runFrom {later : List Operation} {entries : List ManifestEntry}
    {between : World σ} (plan : operations = done ++ operation :: later)
    (same : runFrom backend token root observer operations.length 0 done
      (observer (.began operations.length) world) = (.ok entries, between))
    (quiet : between.hasFired token = false) :
    Comes backend token root observer operations world done operation
      (observer (.starting done.length operations.length operation) between) :=
  ⟨⟨later, plan⟩, entries, between, same, quiet, rfl⟩

/-- The error of an operation tells its number and its fault. -/
theorem errorOf_eq_operation {index number : Nat} {branch : String} {fault cause : Fault}
    (same : errorOf index operation fault = .operation number branch cause) :
    number = index ∧ branch = operation.branch ∧ cause = fault ∧ fault ≠ .cancelled := by
  cases fault with
  | conflict | cancelled => cases same
  | _ =>
      cases same
      exact ⟨rfl, rfl, rfl, fun impossible => by cases impossible⟩

/-- A run that fails has carried out the operations before one that it gives up before, or that
fails. -/
theorem runFrom_eq_error {total index : Nat} {error : BuildError} {after : World σ}
    (ran : runFrom backend token root observer total index operations world = (.error error, after)) :
    ∃ done operation later entries between, operations = done ++ operation :: later ∧
      runFrom backend token root observer total index done world = (.ok entries, between) ∧
      (between.hasFired token = true ∧ error = .stopped (before? (index + done.length)) ∨
        between.hasFired token = false ∧ ∃ fault failed,
          apply backend token root operation
            (observer (.starting (index + done.length) total operation) between) =
              (.error fault, failed) ∧
          error = errorOf (index + done.length) operation fault) := by
  induction operations generalizing index world after with
  | nil => cases ran
  | cons operation others ih =>
      rw [runFrom_cons] at ran
      cases fired : world.hasFired token with
      | true =>
          rw [fired, if_pos rfl] at ran
          cases ran
          exact ⟨[], operation, others, [], world, rfl, rfl, .inl ⟨fired, rfl⟩⟩
      | false =>
          rw [fired, if_neg Bool.false_ne_true] at ran
          split at ran
          · rename_i fault failed applied
            cases ran
            exact ⟨[], operation, others, [], world, rfl, rfl,
              .inr ⟨fired, fault, failed, applied, rfl⟩⟩
          · rename_i unchanged between applied
            split at ran
            · rename_i other last stops
              cases ran
              obtain ⟨done, next, later, entries, end', rfl, carried, breaks⟩ := ih stops
              rw [Nat.add_right_comm] at breaks
              exact ⟨operation :: done, next, later, _, end', rfl,
                runFrom_cons_eq_ok_iff.mpr ⟨fired, unchanged, between, entries, applied, carried, rfl⟩,
                breaks⟩
            · cases ran

/-- A run fails at an operation that it comes to, unless the token has fired before. -/
theorem run_eq_error {version : Option String} {error : BuildError} {after : World σ}
    (ran : run backend token root observer version operations world = (.error error, after)) :
    (∃ completed, error = .stopped completed) ∨
      ∃ done operation there fault failed,
        Comes backend token root observer operations world done operation there ∧
        apply backend token root operation there = (.error fault, failed) ∧
        error = errorOf done.length operation fault := by
  rw [run_eq] at ran
  split at ran
  · cases ran
  · rename_i other last stops
    cases ran
    obtain ⟨done, operation, later, entries, between, same, carried, breaks⟩ := runFrom_eq_error stops
    rw [Nat.zero_add] at breaks
    rcases breaks with ⟨_, rfl⟩ | ⟨quiet, fault, failed, applied, rfl⟩
    · exact .inl ⟨_, rfl⟩
    · exact .inr ⟨done, operation, _, fault, failed,
        ⟨⟨later, same⟩, entries, between, carried, quiet, rfl⟩, applied, rfl⟩

end SourceRecipe.Run
