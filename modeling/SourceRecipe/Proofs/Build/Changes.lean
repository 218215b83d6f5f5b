import SourceRecipe.Proofs.Build.Course
import SourceRecipe.Proofs.Build.Layout
import SourceRecipe.Proofs.Depot.Tokens

/-!
# Runs on a depot

On a depot an operation is a request, or nothing at all for a repeated merge, and a run is the list
of these requests.  Where observers leave the depot alone, what a run does to it is what the
requests do, so facts about runs are proved on depots.
-/

namespace SourceRecipe

/-- Whether an observer leaves what is kept alone. -/
def Observer.KeepsStore {σ : Type} (observer : Observer σ) : Prop :=
  ∀ event before, (observer event before).store = before.store

/-- Whether all that an observer does is to give notices. -/
structure Observer.OnlyNotes {σ : Type} (observer : Observer σ) : Prop where
  store : observer.KeepsStore
  signals : ∀ event before, (observer event before).signals = before.signals
  files : ∀ event before, (observer event before).files = before.files

namespace Run

variable {token : Token} {root : Path} {observer : Observer Depot} {operation : Operation}

def change (root : Path) (operation : Operation) : Depot.Request Bool :=
  match operation.action with
  | .merge _ true => pure true
  | .merge nickname false => do
      let outcome ← Depot.merge (treePath root operation.target) operation.branch operation.revision
        (mergeMessage nickname)
      return outcome = .upToDate
  | _ => do
      Depot.checkout operation.branch operation.revision (treePath root operation.target)
      return false

/-- All that an operation that succeeds can do to a depot. -/
theorem change_eq_ok_iff {depot after : Depot} {unchanged : Bool} :
    change root operation depot = (.ok unchanged, after) ↔
      operation.isRepeatedMerge = true ∧ unchanged = true ∧ after = depot ∨
      (∃ nickname outcome, operation.action = .merge nickname false ∧
        Depot.merge (treePath root operation.target) operation.branch operation.revision
          (mergeMessage nickname) depot = (.ok outcome, after) ∧
        unchanged = decide (outcome = .upToDate)) ∨
      operation.Makes ∧ unchanged = false ∧
        Depot.checkout operation.branch operation.revision (treePath root operation.target) depot =
          (.ok (), after) := by
  rcases operation with ⟨action, branch, revision, target, depth⟩
  cases action with
  | merge nickname repeated =>
      have merges : ¬ Operation.Makes ⟨.merge nickname repeated, branch, revision, target, depth⟩ :=
        fun makes => makes rfl
      cases repeated with
      | true =>
          rw [change, run_pure_eq_ok_iff]
          constructor
          · rintro ⟨rfl, rfl⟩
            exact .inl ⟨rfl, rfl, rfl⟩
          · rintro (⟨_, rfl, rfl⟩ | ⟨_, _, impossible, _⟩ | ⟨makes, _⟩)
            · exact ⟨rfl, rfl⟩
            · cases impossible
            · exact absurd makes merges
      | false =>
          simp only [change, run_bind_eq_ok_iff, run_pure_eq_ok_iff]
          constructor
          · rintro ⟨outcome, _, merged, rfl, rfl⟩
            exact .inr (.inl ⟨nickname, outcome, rfl, merged, rfl⟩)
          · rintro (⟨impossible, _⟩ | ⟨_, outcome, same, merged, rfl⟩ | ⟨makes, _⟩)
            · cases impossible
            · cases same
              exact ⟨outcome, after, merged, rfl, rfl⟩
            · exact absurd makes merges
  | checkout | nest =>
      simp only [change, run_bind_eq_ok_iff, run_pure_eq_ok_iff]
      constructor
      · rintro ⟨_, _, made, rfl, rfl⟩
        exact .inr (.inr ⟨fun impossible => (by cases impossible), rfl, made⟩)
      · rintro (⟨impossible, _⟩ | ⟨_, _, impossible, _⟩ | ⟨_, rfl, made⟩)
        · cases impossible
        · cases impossible
        · exact ⟨(), after, made, rfl, rfl⟩

theorem change_eq_error {depot after : Depot} {fault : Fault}
    (failed : change root operation depot = (.error fault, after)) :
    (¬ operation.Makes ∧ ∃ message,
      Depot.merge (treePath root operation.target) operation.branch operation.revision message depot =
        (.error fault, after)) ∨
      operation.Makes ∧
        Depot.checkout operation.branch operation.revision (treePath root operation.target) depot =
          (.error fault, after) := by
  rcases operation with ⟨action, branch, revision, target, depth⟩
  cases action with
  | merge nickname repeated =>
      cases repeated with
      | true => cases failed
      | false =>
          simp only [change, run_bind_eq_error_iff, run_pure_eq_error_iff, and_false, exists_false,
            or_false] at failed
          exact .inl ⟨fun makes => makes rfl, _, failed⟩
  | checkout | nest =>
      simp only [change, run_bind_eq_error_iff, run_pure_eq_error_iff, and_false, exists_false,
        or_false] at failed
      exact .inr ⟨fun impossible => (by cases impossible), failed⟩

/-- An operation on a depot is its request as a call, unless there is nothing to ask. -/
theorem apply_depot (token : Token) (root : Path) (operation : Operation) (world : World Depot) :
    apply Depot.backend token root operation world =
      if operation.isRepeatedMerge then (.ok true, world)
      else (change root operation).call token world := by
  rcases operation with ⟨action, branch, revision, target, depth⟩
  cases action with
  | merge nickname repeated =>
      cases repeated with
      | true => rfl
      | false => exact Depot.call_map (Depot.merge _ _ _ _) _ world
  | checkout | nest => exact Depot.call_map (Depot.checkout _ _ _) (fun _ => false) world

theorem apply_depot_eq_ok_iff {world after : World Depot} {unchanged : Bool} :
    apply Depot.backend token root operation world = (.ok unchanged, after) ↔
      (operation.isRepeatedMerge = true ∨ world.hasFired token = false) ∧
        ∃ depot, change root operation world.store = (.ok unchanged, depot) ∧
          after = { world with store := depot } := by
  rw [apply_depot]
  cases repeated : operation.isRepeatedMerge with
  | true =>
      have nothing : change root operation world.store = (.ok true, world.store) :=
        change_eq_ok_iff.mpr (.inl ⟨repeated, rfl, rfl⟩)
      rw [if_pos rfl, nothing]
      constructor
      · intro same
        cases same
        exact ⟨.inl rfl, world.store, rfl, rfl⟩
      · rintro ⟨_, _, same, rfl⟩
        cases same
        rfl
  | false =>
      rw [if_neg Bool.false_ne_true, Depot.call_eq_ok_iff]
      simp only [Bool.false_eq_true, false_or]

/-- An operation that succeeds on a depot is on a token, unless there was nothing to do for it
because the tree has the revision already. -/
theorem apply_depot_eq_ok {world after : World Depot} {unchanged : Bool}
    (tokens : world.store.HasTokenIds)
    (applied : apply Depot.backend token root operation world = (.ok unchanged, after)) :
    (operation.isRepeatedMerge = false → Text.IsToken operation.revision.toList) ∧
      after.store.HasTokenIds := by
  obtain ⟨_, depot, changed, rfl⟩ := apply_depot_eq_ok_iff.mp applied
  rcases change_eq_ok_iff.mp changed with
    ⟨repeated, _, rfl⟩ | ⟨_, _, _, merged, _⟩ | ⟨_, _, made⟩
  · refine ⟨fun works => ?_, tokens⟩
    rw [repeated] at works
    cases works
  · obtain ⟨token, kept⟩ := tokens.merge merged
    exact ⟨fun _ => token, kept⟩
  · obtain ⟨token, kept⟩ := tokens.checkout made
    exact ⟨fun _ => token, kept⟩

theorem apply_depot_eq_error {world after : World Depot} {fault : Fault}
    (failed : apply Depot.backend token root operation world = (.error fault, after)) :
    fault = .cancelled ∨ ∃ depot, change root operation world.store = (.error fault, depot) := by
  rw [apply_depot] at failed
  split at failed
  · cases failed
  · exact Depot.call_eq_error failed

def changes (root : Path) : List Operation → Depot.Request (List ManifestEntry)
  | [] => pure []
  | operation :: others => do
      let unchanged ← change root operation
      let entries ← changes root others
      return .ofOperation operation unchanged :: entries

theorem changes_cons_eq_ok_iff {others : List Operation} {depot after : Depot}
    {entries : List ManifestEntry} :
    changes root (operation :: others) depot = (.ok entries, after) ↔
      ∃ unchanged between rest, change root operation depot = (.ok unchanged, between) ∧
        changes root others between = (.ok rest, after) ∧
        entries = .ofOperation operation unchanged :: rest := by
  rw [changes]
  simp only [run_bind_eq_ok_iff, run_pure_eq_ok_iff]
  constructor
  · rintro ⟨unchanged, between, changed, rest, _, later, rfl, rfl⟩
    exact ⟨unchanged, between, rest, changed, later, rfl⟩
  · rintro ⟨unchanged, between, rest, changed, later, rfl⟩
    exact ⟨unchanged, between, changed, rest, after, later, rfl, rfl⟩

/-- What holds at first, and after an operation that succeeds with one more operation done, holds
after all operations. -/
theorem changes_keeps {Holds : List Operation → Depot → Prop} {done operations : List Operation}
    (step : ∀ done, ∀ operation ∈ operations, ∀ depot unchanged later, Holds done depot →
      change root operation depot = (.ok unchanged, later) → Holds (done ++ [operation]) later)
    {depot after : Depot} {entries : List ManifestEntry}
    (ran : changes root operations depot = (.ok entries, after)) (holds : Holds done depot) :
    Holds (done ++ operations) after := by
  induction operations generalizing done depot entries with
  | nil =>
      obtain ⟨_, rfl⟩ := run_pure_eq_ok_iff.mp ran
      rw [List.append_nil]
      exact holds
  | cons operation others ih =>
      obtain ⟨unchanged, between, rest, changed, later, rfl⟩ := changes_cons_eq_ok_iff.mp ran
      rw [List.append_cons]
      exact ih (fun done other member => step done other (List.mem_cons_of_mem operation member))
        later (step done operation List.mem_cons_self _ _ _ holds changed)

/-- What checkouts and merges keep, operations keep. -/
theorem changes_invariant {Holds : Depot → Prop}
    (checkouts : ∀ depot after branch revision path, Holds depot →
      Depot.checkout branch revision path depot = (.ok (), after) → Holds after)
    (merges : ∀ depot after path branch revision message outcome, Holds depot →
      Depot.merge path branch revision message depot = (.ok outcome, after) → Holds after)
    {operations : List Operation} {depot after : Depot} {entries : List ManifestEntry}
    (ran : changes root operations depot = (.ok entries, after)) (holds : Holds depot) :
    Holds after := by
  have step (done : List Operation) (operation : Operation) (_ : operation ∈ operations)
      (depot : Depot) (unchanged : Bool) (later : Depot) (holds : Holds depot)
      (changed : change root operation depot = (.ok unchanged, later)) : Holds later := by
    rcases change_eq_ok_iff.mp changed with
      ⟨_, _, rfl⟩ | ⟨_, _, _, merged, _⟩ | ⟨_, _, made⟩
    · exact holds
    · exact merges _ _ _ _ _ _ _ holds merged
    · exact checkouts _ _ _ _ _ holds made
  exact @changes_keeps root (fun _ depot => Holds depot) [] operations step _ _ _ ran holds

/-- A run does to a depot what its operations ask. -/
theorem runFrom_depot_eq_ok (keeps : observer.KeepsStore) {total index : Nat}
    {operations : List Operation} {world after : World Depot} {entries : List ManifestEntry}
    (ran : runFrom Depot.backend token root observer total index operations world =
      (.ok entries, after)) :
    changes root operations world.store = (.ok entries, after.store) := by
  induction operations generalizing index world entries with
  | nil =>
      obtain ⟨rfl, rfl⟩ := run_pure_eq_ok_iff.mp ran
      rfl
  | cons operation others ih =>
      obtain ⟨_, unchanged, between, rest, applied, later, rfl⟩ := runFrom_cons_eq_ok_iff.mp ran
      obtain ⟨_, depot, changed, rfl⟩ := apply_depot_eq_ok_iff.mp applied
      rw [keeps] at changed
      have others := ih later
      rw [keeps] at others
      exact changes_cons_eq_ok_iff.mpr ⟨unchanged, depot, rest, changed, others, rfl⟩

/-- A run goes through when its operations do and nothing fires the token. -/
theorem runFrom_depot_of_changes (notes : observer.OnlyNotes) {total index : Nat}
    {operations : List Operation} {world : World Depot} {depot : Depot}
    {entries : List ManifestEntry} (quiet : world.hasFired token = false)
    (ran : changes root operations world.store = (.ok entries, depot)) :
    ∃ after, runFrom Depot.backend token root observer total index operations world =
        (.ok entries, after) ∧
      after.store = depot ∧ after.signals = world.signals ∧ after.files = world.files := by
  induction operations generalizing index world entries with
  | nil =>
      obtain ⟨rfl, rfl⟩ := run_pure_eq_ok_iff.mp ran
      exact ⟨world, rfl, rfl, rfl, rfl⟩
  | cons operation others ih =>
      obtain ⟨unchanged, between, rest, changed, later, rfl⟩ := changes_cons_eq_ok_iff.mp ran
      have silent : (observer (.starting index total operation) world).hasFired token = false := by
        rw [World.hasFired, notes.signals]
        exact quiet
      rw [← notes.store (.starting index total operation)] at changed
      have applied := apply_depot_eq_ok_iff.mpr ⟨.inr silent, between, changed, rfl⟩
      obtain ⟨after, carried, store, signals, files⟩ := @ih (index + 1)
        (observer (.completed index total operation unchanged)
          { observer (.starting index total operation) world with store := between }) rest
        (by rw [World.hasFired, notes.signals]; exact silent) (by rw [notes.store]; exact later)
      refine ⟨after, runFrom_cons_eq_ok_iff.mpr ⟨quiet, unchanged, _, rest, applied, carried, rfl⟩,
        store, ?_, ?_⟩
      · rw [signals, notes.signals]
        exact notes.signals _ _
      · rw [files, notes.files]
        exact notes.files _ _

theorem records_of_changes {operations : List Operation} {depot after : Depot}
    {entries : List ManifestEntry} (ran : changes root operations depot = (.ok entries, after)) :
    Manifest.Records operations entries := by
  induction operations generalizing depot entries with
  | nil =>
      obtain ⟨rfl, _⟩ := run_pure_eq_ok_iff.mp ran
      exact .nil
  | cons operation others ih =>
      obtain ⟨unchanged, _, rest, _, later, rfl⟩ := changes_cons_eq_ok_iff.mp ran
      exact .cons ⟨unchanged, rfl⟩ (ih later)

/-- The manifest of a run has the entries of what its operations asked. -/
theorem run_depot_eq_ok (keeps : observer.KeepsStore) {version : Option String}
    {operations : List Operation} {world after : World Depot} {manifest : Manifest}
    (ran : run Depot.backend token root observer version operations world = (.ok manifest, after)) :
    ∃ entries, manifest = ⟨version, entries⟩ ∧
      changes root operations world.store = (.ok entries, after.store) := by
  rw [run_eq] at ran
  split at ran
  · rename_i entries between carried
    cases ran
    have changed := runFrom_depot_eq_ok keeps carried
    rw [keeps] at changed
    rw [keeps]
    exact ⟨entries, rfl, changed⟩
  · cases ran

theorem run_depot_of_changes (notes : observer.OnlyNotes) (version : Option String)
    {operations : List Operation} {world : World Depot} {depot : Depot}
    {entries : List ManifestEntry} (quiet : world.hasFired token = false)
    (ran : changes root operations world.store = (.ok entries, depot)) :
    ∃ after, run Depot.backend token root observer version operations world =
        (.ok ⟨version, entries⟩, after) ∧ after.store = depot ∧ after.files = world.files := by
  have silent : (observer (.began operations.length) world).hasFired token = false := by
    rw [World.hasFired, notes.signals]
    exact quiet
  rw [← notes.store (.began operations.length)] at ran
  obtain ⟨between, carried, store, _, files⟩ :=
    @runFrom_depot_of_changes token root observer notes operations.length 0 _ _ _ _ silent ran
  refine ⟨observer .finished between, ?_, ?_, ?_⟩
  · rw [run_eq, carried]
  · rw [notes.store, store]
  · rw [notes.files, files, notes.files]

/-- Where a run comes to an operation, the depot is what the operations before have made of it. -/
theorem Comes.changes {operations done : List Operation} {world there : World Depot}
    (keeps : observer.KeepsStore)
    (comes : Comes Depot.backend token root observer operations world done operation there) :
    ∃ entries, changes root done world.store = (.ok entries, there.store) := by
  obtain ⟨entries, between, ran, _, rfl⟩ := comes.carried
  have done := runFrom_depot_eq_ok keeps ran
  rw [keeps] at done
  rw [keeps]
  exact ⟨entries, done⟩

end Run

end SourceRecipe
