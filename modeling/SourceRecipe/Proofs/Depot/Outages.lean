import SourceRecipe.Proofs.Backend.Attempts
import SourceRecipe.Proofs.Depot.Requests

/-!
# Branches that cannot be reached for a while

A call on a branch that cannot be reached fails before it does anything, so attempting it again is
making it once: when enough attempts are left, the call answers what it would have answered had the
branch been there at once, and leaves the same depot, but for the look-ups counted in vain.  When
there are too few, every attempt takes one failure away and nothing else changes.
-/

namespace SourceRecipe

theorem Fault.isRetryable_eq_false {fault : Fault} (other : ∀ message, fault ≠ .network message) :
    fault.isRetryable = false := by
  cases fault with
  | network message => exact absurd rfl (other message)
  | _ => rfl

theorem Dict.put_put {κ α : Type} [DecidableEq κ] (dict : Dict κ α) (key : κ) (first second : α) :
    (dict.put key first).put key second = dict.put key second := by
  rw [put, put, put, erase, erase, List.filter_cons_of_neg (by simp), List.filter_filter]
  simp only [Bool.and_self]

namespace Depot

variable {depot : Depot} {branch : String} {left : Nat}

/-! ## Failures to come -/

def failuresOf (depot : Depot) (branch : String) : Nat :=
  (depot.failures.get? branch).getD 0

/-- The depot in which some calls on a branch are still to fail, and not more or fewer of them. -/
def withFailures (depot : Depot) (branch : String) (left : Nat) : Depot :=
  if depot.failuresOf branch = left then depot
  else { depot with failures := depot.failures.put branch left }

theorem withFailures_of_eq (already : depot.failuresOf branch = left) :
    depot.withFailures branch left = depot :=
  if_pos already

theorem withFailures_of_ne (other : depot.failuresOf branch ≠ left) :
    depot.withFailures branch left =
      { depot with failures := depot.failures.put branch left } :=
  if_neg other

@[simp]
theorem failuresOf_withFailures (depot : Depot) (branch : String) (left : Nat) :
    (depot.withFailures branch left).failuresOf branch = left := by
  by_cases already : depot.failuresOf branch = left
  · rw [withFailures_of_eq already, already]
  · rw [withFailures_of_ne already, failuresOf, Dict.get?_put_self]
    rfl

theorem reaches_iff : depot.Reaches branch ↔ depot.failuresOf branch = 0 := by
  rw [Reaches, failuresOf]
  cases depot.failures.get? branch with
  | none => exact ⟨fun _ => rfl, fun _ _ impossible => by cases impossible⟩
  | some left => exact ⟨fun none => none left rfl, fun none _ same => by cases same; exact none⟩

/-- Of a number of failures to come some are left first, and then fewer. -/
theorem withFailures_withFailures {first : Nat} (fewer : first < depot.failuresOf branch)
    (fewest : left ≤ first) :
    (depot.withFailures branch first).withFailures branch left = depot.withFailures branch left := by
  by_cases same : first = left
  · subst same
    exact withFailures_of_eq (failuresOf_withFailures depot branch first)
  · have once : (depot.withFailures branch first).failuresOf branch ≠ left := by
      rwa [failuresOf_withFailures]
    rw [withFailures_of_ne once, withFailures_of_ne (by omega), withFailures_of_ne (by omega)]
    dsimp only
    rw [Dict.put_put]

def withLookups (depot : Depot) (more : Nat) : Depot :=
  { depot with lookups := depot.lookups + more }

@[simp]
theorem withLookups_zero (depot : Depot) : depot.withLookups 0 = depot := rfl

@[simp]
theorem withLookups_withLookups (depot : Depot) (first second : Nat) :
    (depot.withLookups first).withLookups second = depot.withLookups (first + second) := by
  rw [withLookups, withLookups, withLookups, Nat.add_assoc]

@[simp]
theorem failuresOf_withLookups (depot : Depot) (more : Nat) (branch : String) :
    (depot.withLookups more).failuresOf branch = depot.failuresOf branch := rfl

theorem withFailures_withLookups (depot : Depot) (more : Nat) (branch : String) (left : Nat) :
    (depot.withLookups more).withFailures branch left =
      (depot.withFailures branch left).withLookups more := by
  by_cases already : depot.failuresOf branch = left
  · rw [withFailures_of_eq already,
      withFailures_of_eq ((failuresOf_withLookups depot more branch).trans already)]
  · rw [withFailures_of_ne already,
      withFailures_of_ne fun same =>
        already ((failuresOf_withLookups depot more branch).symm.trans same)]
    rfl

/-! ## Requests that need a branch -/

def outage (branch : String) : Fault :=
  .network s!"simulated failure reaching {branch}"

/-- What is asked of a request that needs a branch: while calls on the branch are to fail, the
request is one of them and leaves only its count of look-ups; and once the branch is reached, the
request does not fail because of the network, nor does what was counted before matter to it. -/
structure Request.Needs {α : Type} (request : Request α) (branch : String) (counts : Nat) :
    Prop where
  unreached : ∀ depot left, depot.failuresOf branch = left + 1 →
    request depot = (.error (outage branch), (depot.withFailures branch left).withLookups counts)
  reached : ∀ depot after fault, depot.failuresOf branch = 0 →
    request depot = (.error fault, after) → fault.isRetryable = false
  counted : ∀ depot times, depot.failuresOf branch = 0 →
    request (depot.withLookups (times * counts)) =
      ((request depot).1, (request depot).2.withLookups (times * counts))

theorem reach_unreached (pending : depot.failuresOf branch = left + 1) :
    reach branch depot = (.error (outage branch), depot.withFailures branch left) := by
  rw [withFailures_of_ne (by omega)]
  refine reach_eq_error_iff.mpr ⟨left, ?_, rfl, rfl⟩
  rw [failuresOf] at pending
  cases known : depot.failures.get? branch with
  | none =>
      rw [known] at pending
      cases pending
  | some more =>
      rw [known] at pending
      exact congrArg some pending

theorem reach_reached (reached : depot.failuresOf branch = 0) :
    reach branch depot = (.ok (), depot) :=
  reach_eq_ok_iff.mpr ⟨reaches_iff.mpr reached, rfl⟩

theorem reach_ne_error (reached : depot.failuresOf branch = 0) (fault : Fault) (after : Depot) :
    reach branch depot ≠ (.error fault, after) := by
  rw [reach_reached reached]
  intro impossible
  cases impossible

theorem checkout_needs (branch revision : String) (target : Path) :
    (checkout branch revision target).Needs branch 0 where
  unreached depot left pending := by
    rw [checkout, run_bind, reach_unreached pending, withLookups_zero]
  reached depot after fault reached failed := by
    apply Fault.isRetryable_eq_false
    rintro message rfl
    rcases checkout_stops failed with unreached | ⟨_, cause⟩
    · exact reach_ne_error reached _ _ unreached
    · rcases cause with ⟨_, impossible⟩ | impossible | ⟨_, impossible⟩ | ⟨_, _, _, unkept⟩
      · cases impossible
      · cases impossible
      · cases impossible
      · cases (stored_eq_error unkept).2
  counted _ _ _ := rfl

theorem merge_needs (path : Path) (branch revision message : String) :
    (merge path branch revision message).Needs branch 0 where
  unreached depot left pending := by
    rw [merge, run_bind, reach_unreached pending, withLookups_zero]
  reached depot after fault reached failed := by
    apply Fault.isRetryable_eq_false
    rintro message rfl
    rcases merge_stops failed with unreached | ⟨_, cause⟩ | ⟨_, _, _, _, _, uncommitted⟩
    · exact reach_ne_error reached _ _ unreached
    · rcases cause with ⟨_, impossible⟩ | ⟨_, impossible⟩ | ⟨_, impossible⟩
      · cases impossible
      · cases impossible
      · cases impossible
    · obtain ⟨_, _, impossible⟩ := commitMerge_eq_error uncommitted
      cases impossible
  counted _ _ _ := rfl

/-! ## Look-ups -/

theorem newestUpTo_eq_error {limit : Time.Instant} {best : Option (String × Time.Instant)}
    {revisions : List String} {fault : Fault}
    (failed : depot.newestUpTo limit best revisions = .error fault) :
    ∃ unkept : String, fault = .other s!"unknown revision {unkept}" := by
  induction revisions generalizing best with
  | nil => cases failed
  | cons revision others ih =>
      rw [newestUpTo, bind_eq_error_iff] at failed
      rcases failed with unkept | ⟨_, _, failed⟩
      · exact ⟨revision, (stored_eq_error unkept).2⟩
      · exact ih failed

theorem find_eq_error {revisions : List String} {specifier : Specifier} {fault : Fault}
    (failed : depot.find branch revisions specifier = .error fault) :
    ∃ unkept : String, fault = .other s!"unknown revision {unkept}" := by
  cases specifier with
  | tip | revision | tag => cases failed
  | date limit =>
      rw [find, bind_eq_error_iff] at failed
      rcases failed with failed | ⟨_, _, impossible⟩
      · exact newestUpTo_eq_error failed
      · cases impossible

def sought (depot : Depot) (branch : String) (specifier : Specifier) : Except Fault String := do
  match ← depot.find branch (← depot.line branch) specifier with
  | some revision => return revision
  | none => throw (.revisionNotFound branch specifier.sought)

/-- The count of look-ups does not matter for what is sought. -/
theorem sought_withLookups (depot : Depot) (more : Nat) (branch : String) (specifier : Specifier) :
    (depot.withLookups more).sought branch specifier = depot.sought branch specifier := by
  simp only [sought, withLookups, find_lookups]
  rfl

theorem ofExcept_bind_run {α β : Type} (known : Except Fault α) (next : α → Request β)
    (depot : Depot) :
    (Request.ofExcept known >>= next) depot =
      match known with
      | .ok answer => next answer depot
      | .error fault => (.error fault, depot) := by
  rw [run_bind, Request.ofExcept]
  cases known <;> rfl

theorem lookup_reached (reached : depot.failuresOf branch = 0) (specifier : Specifier) :
    lookup branch specifier depot = (depot.sought branch specifier, depot.withLookups 1) := by
  rw [← sought_withLookups depot 1, sought]
  change (reach branch >>= _ : Request String) (depot.withLookups 1) = _
  rw [run_bind, reach_reached ((failuresOf_withLookups depot 1 branch).trans reached)]
  change (Request.ofExcept ((depot.withLookups 1).line branch) >>= _ : Request String) _ = _
  rw [ofExcept_bind_run]
  cases (depot.withLookups 1).line branch with
  | error fault => rfl
  | ok revisions =>
      dsimp only
      rw [ofExcept_bind_run]
      change _ = (((depot.withLookups 1).find branch revisions specifier >>= _), _)
      cases (depot.withLookups 1).find branch revisions specifier with
      | error fault => rfl
      | ok found => cases found <;> rfl

theorem lookup_needs (branch : String) (specifier : Specifier) :
    (lookup branch specifier).Needs branch 1 where
  unreached depot left pending := by
    change (reach branch >>= _ : Request String) (depot.withLookups 1) = _
    rw [run_bind, reach_unreached ((failuresOf_withLookups depot 1 branch).trans pending),
      withFailures_withLookups]
  reached depot after fault reached failed := by
    rw [lookup_reached reached, Prod.mk.injEq, sought, bind_eq_error_iff] at failed
    apply Fault.isRetryable_eq_false
    rintro message rfl
    rcases failed.1 with missing | ⟨revisions, _, failed⟩
    · cases line_eq_error missing
    · rw [bind_eq_error_iff] at failed
      rcases failed with failed | ⟨found, _, failed⟩
      · obtain ⟨_, impossible⟩ := find_eq_error failed
        cases impossible
      · cases found <;> cases failed
  counted depot times reached := by
    rw [lookup_reached reached, lookup_reached ((failuresOf_withLookups _ _ _).trans reached),
      sought_withLookups, withLookups_withLookups, withLookups_withLookups, Nat.add_comm]

/-! ## Calls that are attempted again -/

variable {α : Type}

/-- What becomes of a call on a branch that is attempted a number of times: an answer and the depot
that it leaves.  With enough attempts they are those of the call when it is made once and the branch
can be reached; with too few, the branch is not reached and nothing is done. -/
inductive RidesOut (call : Call Depot α) (branch : String) (counts attempts : Nat)
    (world : World Depot) : Except Fault α → Depot → Prop where
  | reached (enough : world.store.failuresOf branch < attempts) {answer : Except Fault α}
      {after : World Depot}
      (once : call { world with store := world.store.withFailures branch 0 } = (answer, after)) :
      RidesOut call branch counts attempts world answer
        (after.store.withLookups (world.store.failuresOf branch * counts))
  | unreached (tooFew : attempts ≤ world.store.failuresOf branch) :
      RidesOut call branch counts attempts world (.error (outage branch))
        ((world.store.withFailures branch (world.store.failuresOf branch - attempts)).withLookups
          (attempts * counts))

section

variable {request : Request α} {counts : Nat} {token : Token} {world : World Depot}

theorem call_of_quiet (request : Request α) (quiet : world.hasFired token = false) :
    request.call token world =
      ((request world.store).1, { world with store := (request world.store).2 }) := by
  rw [call_run, quiet]
  rfl

/-- An attempt that does not reach the branch is one failure and one attempt less. -/
theorem RidesOut.next (needs : request.Needs branch counts) {between : World Depot}
    (quiet : world.hasFired token = false) (stillQuiet : between.hasFired token = false)
    {more attempts : Nat} (pending : world.store.failuresOf branch = more + 1)
    (left : between.store = (world.store.withFailures branch more).withLookups counts)
    {answer : Except Fault α} {depot : Depot}
    (rides : RidesOut (request.call token) branch counts attempts between answer depot) :
    RidesOut (request.call token) branch counts (attempts + 1) world answer depot := by
  have fewer : between.store.failuresOf branch = more := by
    rw [left, failuresOf_withLookups, failuresOf_withFailures]
  have drop (few : Nat) (fewest : few ≤ more) : between.store.withFailures branch few =
      (world.store.withFailures branch few).withLookups counts := by
    rw [left, withFailures_withLookups, withFailures_withFailures (by omega) fewest]
  have sum (times : Nat) : counts + times * counts = (times + 1) * counts := by
    rw [Nat.succ_mul, Nat.add_comm]
  cases rides with
  | @reached enough _ after once =>
      have counted := needs.counted (world.store.withFailures branch 0) 1
        (failuresOf_withFailures _ _ _)
      rw [Nat.one_mul, ← drop 0 (Nat.zero_le more)] at counted
      rw [call_of_quiet request (by exact stillQuiet), Prod.mk.injEq] at once
      obtain ⟨rfl, rfl⟩ := once
      have again := @RidesOut.reached α (request.call token) branch counts (attempts + 1) world
        (by omega) _ _ (call_of_quiet request (by exact quiet))
      rw [pending] at again
      dsimp only at again ⊢
      rw [counted, withLookups_withLookups, fewer, sum]
      exact again
  | unreached tooFew =>
      have again := @RidesOut.unreached α (request.call token) branch counts (attempts + 1) world
        (by omega)
      have rest : more + 1 - (attempts + 1) = more - attempts := by omega
      rw [pending, rest] at again
      rw [fewer, drop _ (Nat.sub_le more attempts), withLookups_withLookups, sum]
      exact again

variable {policy : RetryPolicy} {observer : RetryObserver Depot}

/-- Attempts that follow one another ride out the failures to come, while there are attempts. -/
theorem attemptFrom_ridesOut (needs : request.Needs branch counts)
    (endless : token.deadline = none) (leaves : observer.LeavesAlone token)
    (pauses : ∀ attempt, attempt + 1 < policy.attempts → (policy.delay? attempt).isSome)
    {attempt left : Nat} (whole : attempt + left = policy.attempts) (some : left ≠ 0)
    (quiet : world.hasFired token = false) :
    ∃ answer later,
      Call.attemptFrom policy observer token (request.call token) attempt left world =
        (answer, later) ∧
      RidesOut (request.call token) branch counts left world answer later.store := by
  induction left generalizing attempt world with
  | zero => exact absurd rfl some
  | succ left ih =>
      rw [Call.attemptFrom_succ _ quiet, call_of_quiet request quiet]
      cases pending : world.store.failuresOf branch with
      | zero =>
          have asIs := withFailures_of_eq pending
          have rides := @RidesOut.reached α (request.call token) branch counts (left + 1) world
            (by omega) _ _ (call_of_quiet request (by exact quiet))
          rw [pending, Nat.zero_mul, withLookups_zero] at rides
          dsimp only at rides
          rw [asIs] at rides
          cases asked : request world.store with
          | mk answer depot =>
              rw [asked] at rides
              cases answer with
              | ok found => exact ⟨_, _, rfl, rides⟩
              | error fault =>
                  have refused := needs.reached _ _ _ pending asked
                  exact ⟨_, _, Call.afterFault_of_last (.inl refused), rides⟩
      | succ more =>
          rw [needs.unreached _ _ pending]
          dsimp only
          by_cases last : left = 0
          · have tooFew := @RidesOut.unreached α (request.call token) branch counts (left + 1)
              world (by omega)
            rw [pending, last, Nat.zero_add, Nat.one_mul, Nat.add_sub_cancel] at tooFew
            rw [last]
            exact ⟨_, _, Call.afterFault_of_last (.inr rfl), tooFew⟩
          · obtain ⟨delay, span⟩ := Option.isSome_iff_exists.mp (pauses attempt (by omega))
            rw [Call.afterFault_of_more endless leaves (by exact quiet) rfl last span]
            have report := leaves ⟨attempt + 1, policy.attempts, outage branch, delay⟩
              { world with store := (world.store.withFailures branch more).withLookups counts }
            have stillQuiet := (World.hasFired_pass endless delay _).trans (report.2.trans quiet)
            have others : attempt + 1 + left = policy.attempts := by omega
            obtain ⟨answer, later, made, rides⟩ := ih others last stillQuiet
            exact ⟨answer, later, made, rides.next needs quiet stillQuiet pending report.1⟩

theorem retrying_ridesOut (needs : request.Needs branch counts) (endless : token.deadline = none)
    (leaves : observer.LeavesAlone token)
    (pauses : ∀ attempt, attempt + 1 < policy.attempts → (policy.delay? attempt).isSome)
    (some : 1 ≤ policy.attempts) (quiet : world.hasFired token = false) :
    ∃ answer later,
      (request.call token).retrying policy observer token world = (answer, later) ∧
      RidesOut (request.call token) branch counts policy.attempts world answer later.store :=
  attemptFrom_ridesOut needs endless leaves pauses (Nat.zero_add policy.attempts)
    (Nat.one_le_iff_ne_zero.mp some) quiet

/-- A depot whose calls are attempted again, by a policy whose pauses are spans of time and while
the token cannot fire, answers a look-up, a checkout or a merge as it would if the branch could be
reached at once and ends as it would, when there are more attempts than failures to come; otherwise
the branch is not reached, and as many failures less are to come.  Only look-ups are counted for
every attempt. -/
theorem retrying_rides_out (endless : token.deadline = none) (quiet : world.hasFired token = false)
    (leaves : observer.LeavesAlone token) (some : 1 ≤ policy.attempts)
    (pauses : ∀ attempt, attempt + 1 < policy.attempts → (policy.delay? attempt).isSome)
    (branch : String) :
    (∀ specifier, ∃ answer later,
      (backend.retrying policy observer).lookup token branch specifier world = (answer, later) ∧
        RidesOut (backend.lookup token branch specifier) branch 1 policy.attempts world answer
          later.store) ∧
    (∀ revision target, ∃ answer later,
      (backend.retrying policy observer).checkout token branch revision target world =
          (answer, later) ∧
        RidesOut (backend.checkout token branch revision target) branch 0 policy.attempts world
          answer later.store) ∧
    ∀ tree revision message, ∃ answer later,
      (backend.retrying policy observer).merge token tree branch revision message world =
          (answer, later) ∧
        RidesOut (backend.merge token tree branch revision message) branch 0 policy.attempts world
          answer later.store :=
  ⟨fun specifier =>
      retrying_ridesOut (lookup_needs branch specifier) endless leaves pauses some quiet,
    fun revision target =>
      retrying_ridesOut (checkout_needs branch revision target) endless leaves pauses some quiet,
    fun tree revision message =>
      retrying_ridesOut (merge_needs tree branch revision message) endless leaves pauses some
        quiet⟩

end

/-- A branch that is out of reach for two calls. -/
def offlineDepot : Depot :=
  (Depot.empty.commit "base" "b1" ⟨0, 0⟩ [("README", "1")]).failTimes "base" 2

/-- Three attempts are enough for two failures, and not for four. -/
theorem retrying_rides_out_offlineDepot :
    (∃ later, (backend.retrying .standard .noting).checkout ⟨0, none⟩ "base" "b1" ⟨"out"⟩
          (.initial offlineDepot) = (.ok (), later) ∧
        later.store.tree? ⟨"out"⟩ = some ⟨"base", "b1", ⟨[("README", "1")]⟩⟩ ∧
        later.store.failuresOf "base" = 0) ∧
      ∃ later, (backend.retrying .standard .noting).lookup ⟨0, none⟩ "base" .tip
          (.initial (offlineDepot.failTimes "base" 4)) = (.error (outage "base"), later) ∧
        later.store.failuresOf "base" = 1 ∧ later.store.lookups = 3 := by
  have pauses : ∀ attempt, attempt + 1 < RetryPolicy.standard.attempts →
      (RetryPolicy.standard.delay? attempt).isSome := by
    intro attempt few
    have either : attempt = 0 ∨ attempt = 1 := by
      have three : RetryPolicy.standard.attempts = 3 := rfl
      omega
    rcases either with rfl | rfl
    · decide +kernel
    · decide +kernel
  obtain ⟨_, checkouts, _⟩ := @retrying_rides_out ⟨0, none⟩ (.initial offlineDepot) .standard
    .noting rfl rfl (RetryObserver.noting_leavesAlone _) (by decide) pauses "base"
  obtain ⟨lookups, _, _⟩ := @retrying_rides_out ⟨0, none⟩
    (.initial (offlineDepot.failTimes "base" 4)) .standard .noting rfl rfl
    (RetryObserver.noting_leavesAlone _) (by decide) pauses "base"
  obtain ⟨answer, later, made, rides⟩ := checkouts "b1" ⟨"out"⟩
  obtain ⟨found, last, looked, gaveUp⟩ := lookups .tip
  constructor
  · generalize left : later.store = depot at rides
    cases rides with
    | reached enough once =>
        cases once
        exact ⟨later, made, left ▸ rfl, left ▸ rfl⟩
    | unreached tooFew => exact absurd tooFew (by decide)
  · generalize left : last.store = depot at gaveUp
    cases gaveUp with
    | reached enough once => exact absurd enough (by decide)
    | unreached tooFew => exact ⟨last, looked, left ▸ rfl, left ▸ rfl⟩

end Depot

end SourceRecipe
