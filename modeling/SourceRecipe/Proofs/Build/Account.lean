import SourceRecipe.Proofs.Build.Run

/-!
# The account of a run

A system and an observer can be traced: every call with its answer and every event is recorded in
one list, and nothing else changes.  The trace of a run tells the operations of a first part of the
plan in order, each as the start, the call that it takes and the completion, and where the run
breaks off it ends with the one operation that did.  So what the error and the events say of a run
is what was asked of the system.
-/

namespace SourceRecipe

/-! ## Traces -/

inductive TraceEvent where
  /-- An observer is told about progress, when the token has fired already or not. -/
  | told (event : Progress) (fired : Bool)
  | lookedUp (branch : String) (specifier : Specifier) (answer : Except Fault String)
  | checkedOut (branch revision : String) (target : Path) (answer : Except Fault Unit)
  | merged (tree : Path) (branch revision message : String) (answer : Except Fault MergeOutcome)
  | counted (branch revision : String) (answer : Except Fault (Option Nat))

structure Traced (σ : Type) where
  store : σ
  trace : List TraceEvent

variable {σ α : Type}

def World.traced (trace : List TraceEvent) (world : World σ) : World (Traced σ) :=
  world.withStore ⟨world.store, trace⟩

def World.untraced (world : World (Traced σ)) : World σ :=
  world.withStore world.store.store

def Call.traced (record : Except Fault α → TraceEvent) (call : Call σ α) : Call (Traced σ) α :=
  fun world =>
    let (answer, after) := call world.untraced
    (answer, after.traced (world.store.trace ++ [record answer]))

def Backend.traced (backend : Backend σ) : Backend (Traced σ) where
  lookup token branch specifier :=
    (backend.lookup token branch specifier).traced (.lookedUp branch specifier)
  checkout token branch revision target :=
    (backend.checkout token branch revision target).traced (.checkedOut branch revision target)
  merge token tree branch revision message :=
    (backend.merge token tree branch revision message).traced
      (.merged tree branch revision message)
  revno token branch revision :=
    (backend.revno token branch revision).traced (.counted branch revision)

/-- An observer whose events are recorded, each with what had become of the token by then. -/
def Observer.traced (token : Token) (observer : Observer σ) : Observer (Traced σ) :=
  fun event world =>
    (observer event world.untraced).traced
      (world.store.trace ++ [.told event (world.hasFired token)])

theorem Call.traced_run (record : Except Fault α → TraceEvent) (call : Call σ α)
    (trace : List TraceEvent) (world : World σ) :
    call.traced record (world.traced trace) =
      ((call world).1, (call world).2.traced (trace ++ [record (call world).1])) := rfl

theorem Observer.traced_run (token : Token) (observer : Observer σ) (event : Progress)
    (trace : List TraceEvent) (world : World σ) :
    observer.traced token event (world.traced trace) =
      (observer event world).traced (trace ++ [.told event (world.hasFired token)]) := rfl

namespace Run

/-! ## What a run asks -/

/-- What is asked of the system for an operation, and what comes of it: whether there was nothing to
do, or a fault.  Nothing is asked for a repeated merge. -/
inductive Asks (root : Path) : Operation → Except Fault Bool → List TraceEvent → Prop where
  | repeated (nickname branch revision : String) (target : Path) (depth : Nat) :
      Asks root ⟨.merge nickname true, branch, revision, target, depth⟩ (.ok true) []
  | merge (nickname branch revision : String) (target : Path) (depth : Nat)
      (answer : Except Fault MergeOutcome) :
      Asks root ⟨.merge nickname false, branch, revision, target, depth⟩
        (answer.map fun outcome => decide (outcome = .upToDate))
        [.merged (treePath root target) branch revision ("Merge " ++ nickname) answer]
  | checkout (branch revision : String) (target : Path) (depth : Nat) (answer : Except Fault Unit) :
      Asks root ⟨.checkout, branch, revision, target, depth⟩ (answer.map fun _ => false)
        [.checkedOut branch revision (treePath root target) answer]
  | nest (nickname location branch revision : String) (target : Path) (depth : Nat)
      (answer : Except Fault Unit) :
      Asks root ⟨.nest nickname location, branch, revision, target, depth⟩
        (answer.map fun _ => false)
        [.checkedOut branch revision (treePath root target) answer]

/-- Some operations that were carried out one after the other, from number `index` on, with their
entries and their trace.  None was begun after the token had fired. -/
inductive Carries (root : Path) (total : Nat) :
    Nat → List Operation → List ManifestEntry → List TraceEvent → Prop where
  | none (index : Nat) : Carries root total index [] [] []
  | next {index : Nat} {operation : Operation} {others : List Operation} {unchanged fired : Bool}
      {entries : List ManifestEntry} {calls trace : List TraceEvent}
      (asks : Asks root operation (.ok unchanged) calls)
      (rest : Carries root total (index + 1) others entries trace) :
      Carries root total index (operation :: others) (.ofOperation operation unchanged :: entries)
        (.told (.starting index total operation) false ::
          (calls ++ .told (.completed index total operation unchanged) fired :: trace))

/-- How a run breaks off at an operation, with which error, and the end of its trace.  The last
completed operation is the last one of those before. -/
inductive BreaksOff (token : Token) (root : Path) (total index : Nat) (operation : Operation)
    (after : World σ) : BuildError → List TraceEvent → Prop where
  | fired (gaveUp : after.hasFired token = true) :
      BreaksOff token root total index operation after (.stopped (List.range index).getLast?) []
  | cancelled {calls : List TraceEvent} (asks : Asks root operation (.error .cancelled) calls) :
      BreaksOff token root total index operation after (.stopped (List.range index).getLast?)
        (.told (.starting index total operation) false :: calls)
  | conflict {calls : List TraceEvent} {branch : String} {paths : List Path}
      (asks : Asks root operation (.error (.conflict branch paths)) calls) :
      BreaksOff token root total index operation after (.conflict index operation.branch paths)
        (.told (.starting index total operation) false :: calls)
  | fault {calls : List TraceEvent} {fault : Fault} (asks : Asks root operation (.error fault) calls)
      (goesOn : fault ≠ .cancelled) (agrees : ∀ branch paths, fault ≠ .conflict branch paths) :
      BreaksOff token root total index operation after (.operation index operation.branch fault)
        (.told (.starting index total operation) false :: calls)

/-- The account of a run from operation number `index` on: it carries out all operations, or the
first of them and breaks off at the next one. -/
inductive Tells (token : Token) (root : Path) (total index : Nat) (operations : List Operation)
    (after : World σ) : Except BuildError (List ManifestEntry) → List TraceEvent → Prop where
  | finished {entries : List ManifestEntry} {trace : List TraceEvent}
      (carries : Carries root total index operations entries trace) :
      Tells token root total index operations after (.ok entries) trace
  | brokeOff {done later : List Operation} {operation : Operation} {entries : List ManifestEntry}
      {error : BuildError} {trace rest : List TraceEvent}
      (plan : operations = done ++ operation :: later)
      (carries : Carries root total index done entries trace)
      (breaks : BreaksOff token root total (index + done.length) operation after error rest) :
      Tells token root total index operations after (.error error) (trace ++ rest)

/-- The account of a run: it is told to begin, carries out the plan and is told to be finished, or
it carries out the first operations of the plan and breaks off at the next one. -/
inductive Account (token : Token) (root : Path) (version : Option String)
    (operations : List Operation) (after : World σ) :
    Except BuildError Manifest → List TraceEvent → Prop where
  | finished (before last : Bool) {entries : List ManifestEntry} {trace : List TraceEvent}
      (carries : Carries root operations.length 0 operations entries trace) :
      Account token root version operations after (.ok ⟨version, entries⟩)
        (.told (.began operations.length) before :: (trace ++ [.told .finished last]))
  | brokeOff (before : Bool) {done later : List Operation} {operation : Operation}
      {entries : List ManifestEntry} {error : BuildError} {trace rest : List TraceEvent}
      (plan : operations = done ++ operation :: later)
      (carries : Carries root operations.length 0 done entries trace)
      (breaks : BreaksOff token root operations.length done.length operation after error rest) :
      Account token root version operations after (.error error)
        (.told (.began operations.length) before :: (trace ++ rest))

/-! ## Steps of a traced run -/

variable {backend : Backend σ} {token : Token} {root : Path} {observer : Observer σ}

theorem before?_eq_getLast? (index : Nat) : before? index = (List.range index).getLast? := by
  cases index with
  | zero => rfl
  | succ index => rw [List.range_succ, List.getLast?_concat, before?]

/-- A merge that is not repeated is asked of the system. -/
theorem apply_merge (backend : Backend σ) (nickname branch revision : String) (target : Path)
    (depth : Nat) (world : World σ) :
    apply backend token root ⟨.merge nickname false, branch, revision, target, depth⟩ world =
      let (answer, after) := backend.merge token (treePath root target) branch revision
        ("Merge " ++ nickname) world
      (answer.map fun outcome => decide (outcome = .upToDate), after) := by
  change (backend.merge _ _ _ _ ("Merge " ++ nickname) >>= _ : Call σ Bool) world = _
  rw [run_bind]
  cases backend.merge token (treePath root target) branch revision ("Merge " ++ nickname) world with
  | mk answer after =>
      cases answer with
      | error fault => rfl
      | ok outcome => rfl

/-- A tree that is to be made is asked of the system. -/
theorem apply_making (backend : Backend σ) {operation : Operation}
    (making : operation.action.kind ≠ .merge) (world : World σ) :
    apply backend token root operation world =
      let (answer, after) := backend.checkout token operation.branch operation.revision
        (treePath root operation.target) world
      (answer.map fun _ => false, after) := by
  rcases operation with ⟨action, branch, revision, target, depth⟩
  cases action with
  | merge nickname repeated => exact absurd rfl making
  | checkout | nest =>
      change (backend.checkout _ _ _ _ >>= _ : Call σ Bool) world = _
      rw [run_bind]
      cases backend.checkout token branch revision (treePath root target) world with
      | mk answer after =>
          cases answer with
          | error fault => rfl
          | ok made => rfl

/-- An operation asks what its action says, and is not changed by being traced. -/
theorem apply_traced (backend : Backend σ) (token : Token) (root : Path) (operation : Operation)
    (trace : List TraceEvent) (world : World σ) :
    ∃ answer after calls, apply backend token root operation world = (answer, after) ∧
      apply backend.traced token root operation (world.traced trace) =
        (answer, after.traced (trace ++ calls)) ∧
      Asks root operation answer calls := by
  rcases operation with ⟨action, branch, revision, target, depth⟩
  cases action with
  | merge nickname repeated =>
      cases repeated with
      | true =>
          refine ⟨.ok true, world, [], rfl, ?_, .repeated nickname branch revision target depth⟩
          rw [List.append_nil]
          rfl
      | false =>
          rw [apply_merge, apply_merge]
          exact ⟨_, _, _, rfl, rfl, .merge nickname branch revision target depth _⟩
  | checkout =>
      rw [apply_making backend (fun impossible => by cases impossible),
        apply_making backend.traced (fun impossible => by cases impossible)]
      exact ⟨_, _, _, rfl, rfl, .checkout branch revision target depth _⟩
  | nest nickname location =>
      rw [apply_making backend (fun impossible => by cases impossible),
        apply_making backend.traced (fun impossible => by cases impossible)]
      exact ⟨_, _, _, rfl, rfl, .nest nickname location branch revision target depth _⟩

theorem noteFault_traced (operation : Operation) (fault : Fault) (trace : List TraceEvent)
    (world : World σ) :
    noteFault operation fault (world.traced trace) =
      (noteFault operation fault world).traced trace := by
  cases fault <;> rfl

/-- A fault breaks a run off, each kind with its own error. -/
theorem BreaksOff.of_fault {total index : Nat} {operation : Operation} {after : World σ}
    {fault : Fault} {calls : List TraceEvent} (asks : Asks root operation (.error fault) calls) :
    BreaksOff token root total index operation after (errorOf index operation fault)
      (.told (.starting index total operation) false :: calls) := by
  cases fault with
  | cancelled =>
      rw [errorOf, before?_eq_getLast?]
      exact .cancelled asks
  | conflict branch paths => exact .conflict asks
  | _ =>
      exact .fault asks (fun impossible => by cases impossible)
        (fun _ _ impossible => by cases impossible)

/-- A run tells of an operation that it carries out before it tells of the others. -/
theorem Tells.next {total index : Nat} {operation : Operation} {others : List Operation}
    {unchanged : Bool} {calls trace : List TraceEvent} {after : World σ}
    {result : Except BuildError (List ManifestEntry)} (fired : Bool)
    (asks : Asks root operation (.ok unchanged) calls)
    (tells : Tells token root total (index + 1) others after result trace) :
    Tells token root total index (operation :: others) after
      (result.map (.ofOperation operation unchanged :: ·))
      (.told (.starting index total operation) false ::
        (calls ++ .told (.completed index total operation unchanged) fired :: trace)) := by
  cases tells with
  | finished carries => exact .finished (.next asks carries)
  | @brokeOff done later _ entries _ _ _ plan carries breaks =>
      have carried : Carries root total index (operation :: done) _ _ :=
        @Carries.next root total index operation done unchanged fired _ _ _ asks carries
      rw [Nat.add_right_comm] at breaks
      have told := Tells.brokeOff (congrArg (operation :: ·) plan) carried breaks
      rw [List.cons_append, List.append_assoc, List.cons_append] at told
      exact told

/-- A run is not changed by being traced, and its trace tells what was carried out and where it
broke off. -/
theorem runFrom_traced (backend : Backend σ) (token : Token) (root : Path) (observer : Observer σ)
    (total index : Nat) (operations : List Operation) (trace : List TraceEvent) (world : World σ) :
    ∃ result after added,
      runFrom backend token root observer total index operations world = (result, after) ∧
      runFrom backend.traced token root (observer.traced token) total index operations
          (world.traced trace) = (result, after.traced (trace ++ added)) ∧
      Tells token root total index operations after result added := by
  induction operations generalizing index trace world with
  | nil =>
      refine ⟨.ok [], world, [], rfl, ?_, .finished (.none index)⟩
      rw [List.append_nil]
      rfl
  | cons operation others ih =>
      have atOnce : operation :: others = [] ++ operation :: others := rfl
      have known : (world.traced trace).hasFired token = world.hasFired token := rfl
      rw [runFrom_cons, runFrom_cons, known]
      cases fired : world.hasFired token with
      | true =>
          rw [if_pos rfl, if_pos rfl, before?_eq_getLast?]
          refine ⟨_, _, [], rfl, ?_, .brokeOff atOnce (.none index) (.fired fired)⟩
          rw [List.append_nil]
          rfl
      | false =>
          rw [if_neg Bool.false_ne_true, if_neg Bool.false_ne_true, Observer.traced_run, fired]
          obtain ⟨answer, between, calls, applied, traced, asks⟩ :=
            apply_traced backend token root operation
              (trace ++ [.told (.starting index total operation) false])
              (observer (.starting index total operation) world)
          rw [applied, traced]
          cases answer with
          | error fault =>
              refine ⟨_, _, .told (.starting index total operation) false :: calls, rfl, ?_,
                .brokeOff atOnce (.none index) (.of_fault asks)⟩
              dsimp only
              rw [noteFault_traced, List.append_assoc, List.singleton_append]
          | ok unchanged =>
              dsimp only
              obtain ⟨result, after, added, ended, traced, tells⟩ := ih (index + 1)
                (trace ++ [.told (.starting index total operation) false] ++ calls ++
                  [.told (.completed index total operation unchanged) (between.hasFired token)])
                (observer (.completed index total operation unchanged) between)
              rw [Observer.traced_run, ended, traced]
              refine ⟨_, after, _, ?_, ?_, tells.next (between.hasFired token) asks⟩
              · cases result <;> rfl
              · simp only [List.append_assoc, List.singleton_append]
                cases result <;> rfl

/-- Whatever a system answers and an observer does, a run is accounted for by its trace, and taking
the trace changes nothing about the run. -/
theorem run_account (backend : Backend σ) (token : Token) (root : Path) (observer : Observer σ)
    (version : Option String) (operations : List Operation) (world : World σ) :
    ∃ result after trace,
      run backend token root observer version operations world = (result, after) ∧
      run backend.traced token root (observer.traced token) version operations (world.traced []) =
        (result, after.traced trace) ∧
      Account token root version operations after result trace := by
  have begun := Observer.traced_run token observer (.began operations.length) [] world
  obtain ⟨result, after, added, ended, traced, tells⟩ :=
    runFrom_traced backend token root observer operations.length 0 operations
      [.told (.began operations.length) (world.hasFired token)]
      (observer (.began operations.length) world)
  rw [run_eq, run_eq, begun, List.nil_append, ended, traced, List.singleton_append]
  cases tells with
  | finished carries =>
      dsimp only
      rw [Observer.traced_run, List.cons_append]
      exact ⟨_, _, _, rfl, rfl, .finished _ _ carries⟩
  | brokeOff plan carries breaks =>
      rw [Nat.zero_add] at breaks
      exact ⟨_, _, _, rfl, rfl, .brokeOff _ plan carries breaks⟩

end Run

end SourceRecipe
