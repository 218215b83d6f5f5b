import SourceRecipe.Proofs.Depot.Outages
import SourceRecipe.Proofs.Depot.Reached

/-!
# Looking up dates

A date means the newest revision of a branch that is not later.  The times of a branch may stand in
any order, and revisions may be repeated: of several newest ones the last counts.
-/

namespace SourceRecipe

/-! ## The order of instants -/

namespace Time.Instant

variable {first second third : Instant}

theorem atOrBefore_iff :
    first.atOrBefore second = true ↔
      first.second < second.second ∨ first.second = second.second ∧ first.nano ≤ second.nano := by
  rw [atOrBefore, Bool.or_eq_true, Bool.and_eq_true, decide_eq_true_eq, beq_iff_eq,
    decide_eq_true_eq]

theorem atOrBefore_refl (instant : Instant) : instant.atOrBefore instant = true :=
  atOrBefore_iff.mpr (.inr ⟨rfl, Nat.le_refl _⟩)

theorem atOrBefore_trans (before : first.atOrBefore second = true)
    (after : second.atOrBefore third = true) : first.atOrBefore third = true := by
  rw [atOrBefore_iff] at *
  omega

theorem atOrBefore_of_not (later : ¬ first.atOrBefore second = true) :
    second.atOrBefore first = true := by
  rw [atOrBefore_iff] at *
  omega

end Time.Instant

namespace Depot

open Time (Instant)

def time? (depot : Depot) (revision : String) : Option Instant :=
  (depot.history.get? revision).map Commit.time

theorem time?_of_stored {depot : Depot} {revision : String} {commit : Commit}
    (kept : depot.stored revision = .ok commit) : depot.time? revision = some commit.time := by
  rw [time?, stored_eq_ok_iff.mp kept]
  rfl

/-! ## The newest revision -/

def IsLater (depot : Depot) (limit : Instant) (revision : String) : Prop :=
  ∃ time, depot.time? revision = some time ∧ time.atOrBefore limit = false

/-- Whether a revision is the newest one of a branch up to an instant: none before it is newer, and
all behind it are older or too late. -/
structure IsNewestUpTo (depot : Depot) (limit : Instant) (before : List String) (found : String)
    (after : List String) (time : Instant) : Prop where
  dated : depot.time? found = some time
  inTime : time.atOrBefore limit = true
  before : ∀ revision ∈ before, ∀ other ∈ depot.time? revision, other.atOrBefore limit = true →
    other.atOrBefore time = true
  after : ∀ revision ∈ after, ∀ other ∈ depot.time? revision, other.atOrBefore limit = true →
    time.atOrBefore other = false

section

variable {depot : Depot} {limit : Instant} {revisions before after : List String} {found : String}
  {time : Instant}

/-- The newest revision up to an instant has the greatest time up to it. -/
theorem IsNewestUpTo.greatest (newest : depot.IsNewestUpTo limit before found after time)
    {revision : String} (member : revision ∈ before ++ found :: after) {other : Instant}
    (dated : depot.time? revision = some other) (inTime : other.atOrBefore limit = true) :
    other.atOrBefore time = true := by
  rcases List.mem_append.mp member with earlier | member
  · exact newest.before revision earlier other dated inTime
  · rcases List.mem_cons.mp member with rfl | later
    · cases dated.symm.trans newest.dated
      exact Instant.atOrBefore_refl _
    · have older := newest.after revision later other dated inTime
      exact Instant.atOrBefore_of_not (Bool.eq_false_iff.mp older)

theorem IsNewestUpTo.not_isLater (newest : depot.IsNewestUpTo limit before found after time) :
    ¬ depot.IsLater limit found := by
  rintro ⟨other, dated, late⟩
  cases dated.symm.trans newest.dated
  rw [newest.inTime] at late
  cases late

/-- A later limit leaves no older revision as the newest one. -/
theorem IsNewestUpTo.mono (newest : depot.IsNewestUpTo limit before found after time)
    {later : Instant} (limits : limit.atOrBefore later = true) {others : List String}
    {other : String} {rest : List String} {otherTime : Instant}
    (otherNewest : depot.IsNewestUpTo later others other rest otherTime)
    (same : before ++ found :: after = others ++ other :: rest) :
    time.atOrBefore otherTime = true := by
  have member : found ∈ others ++ other :: rest := by
    rw [← same]
    exact List.mem_append_right _ List.mem_cons_self
  exact otherNewest.greatest member newest.dated (Instant.atOrBefore_trans newest.inTime limits)

/-- Of two newest revisions neither stands behind the other. -/
theorem IsNewestUpTo.not_behind (newest : depot.IsNewestUpTo limit before found after time)
    {others : List String} {other : String} {later : List String} {otherTime : Instant}
    (otherNewest : depot.IsNewestUpTo limit others other later otherTime) (member : other ∈ after) :
    found ∉ others := by
  intro earlier
  have older := newest.after other member otherTime otherNewest.dated otherNewest.inTime
  rw [otherNewest.before found earlier time newest.dated newest.inTime] at older
  cases older

/-- A branch has one newest revision up to an instant at most. -/
theorem IsNewestUpTo.unique (newest : depot.IsNewestUpTo limit before found after time)
    {others : List String} {other : String} {later : List String} {otherTime : Instant}
    (otherNewest : depot.IsNewestUpTo limit others other later otherTime)
    (same : before ++ found :: after = others ++ other :: later) : found = other := by
  rcases List.append_eq_append_iff.mp same with ⟨between, rfl, rest⟩ | ⟨between, rfl, rest⟩
  · cases between with
    | nil => exact (List.cons.inj rest).1
    | cons first between =>
        obtain ⟨rfl, rfl⟩ := List.cons.inj rest
        refine absurd ?_ (newest.not_behind otherNewest ?_)
        · exact List.mem_append_right _ List.mem_cons_self
        · exact List.mem_append_right _ List.mem_cons_self
  · cases between with
    | nil => exact (List.cons.inj rest).1.symm
    | cons first between =>
        obtain ⟨rfl, rfl⟩ := List.cons.inj rest
        refine absurd ?_ (otherNewest.not_behind newest ?_)
        · exact List.mem_append_right _ List.mem_cons_self
        · exact List.mem_append_right _ List.mem_cons_self

/-! ## The search -/

/-- Whether what a search has come to is right for the revisions that it has passed. -/
def Settles (depot : Depot) (limit : Instant) (passed : List String) :
    Option (String × Instant) → Prop
  | none => ∀ revision ∈ passed, depot.IsLater limit revision
  | some (found, time) => ∃ before after, passed = before ++ found :: after ∧
      depot.IsNewestUpTo limit before found after time

/-- A revision that is not too late, and not older than the newest one so far, is the newest one. -/
theorem Settles.take {best : Option (String × Instant)} (settles : depot.Settles limit revisions best)
    (dated : depot.time? found = some time) (inTime : time.atOrBefore limit = true)
    (beats : ∀ revision other, best = some (revision, other) → other.atOrBefore time = true) :
    depot.Settles limit (revisions ++ [found]) (some (found, time)) := by
  refine ⟨revisions, [], rfl, dated, inTime, ?_, List.forall_mem_nil _⟩
  intro revision member other otherDated otherInTime
  cases best with
  | none =>
      obtain ⟨late, lateDated, isLate⟩ := settles revision member
      cases lateDated.symm.trans otherDated
      rw [isLate] at otherInTime
      cases otherInTime
  | some best =>
      obtain ⟨earlier, later, rfl, newest⟩ := settles
      exact Instant.atOrBefore_trans (newest.greatest member otherDated otherInTime)
        (beats best.1 best.2 rfl)

/-- A revision that is too late, or older than the newest one so far, is passed over. -/
theorem Settles.pass {best : Option (String × Instant)} (settles : depot.Settles limit revisions best)
    (dated : depot.time? found = some time)
    (loses : time.atOrBefore limit = true →
      ∃ revision other, best = some (revision, other) ∧ other.atOrBefore time = false) :
    depot.Settles limit (revisions ++ [found]) best := by
  cases best with
  | none =>
      refine List.forall_mem_append.mpr ⟨settles, List.forall_mem_singleton.mpr ⟨time, dated, ?_⟩⟩
      rw [Bool.eq_false_iff]
      intro inTime
      obtain ⟨_, _, impossible, _⟩ := loses inTime
      cases impossible
  | some best =>
      obtain ⟨before, after, rfl, newest⟩ := settles
      refine ⟨before, after ++ [found], List.append_assoc _ _ _, newest.dated, newest.inTime,
        newest.before, List.forall_mem_append.mpr ⟨newest.after, ?_⟩⟩
      refine List.forall_mem_singleton.mpr fun other otherDated otherInTime => ?_
      cases dated.symm.trans otherDated
      obtain ⟨_, _, same, older⟩ := loses otherInTime
      cases same
      exact older

/-- Whether a time is not older than that of the newest revision so far. -/
def beats (best : Option (String × Instant)) (time : Instant) : Bool :=
  match best with
  | none => true
  | some (_, other) => other.atOrBefore time

/-- One step of the search settles one more revision. -/
theorem Settles.step {best : Option (String × Instant)} (settles : depot.Settles limit revisions best)
    (dated : depot.time? found = some time) :
    depot.Settles limit (revisions ++ [found])
      (if time.atOrBefore limit && beats best time then some (found, time) else best) := by
  split
  · rename_i wins
    rw [Bool.and_eq_true] at wins
    refine settles.take dated wins.1 fun revision other same => ?_
    subst same
    exact wins.2
  · rename_i loses
    refine settles.pass dated fun inTime => ?_
    rw [inTime, Bool.true_and, Bool.not_eq_true] at loses
    cases best with
    | none => cases loses
    | some best => exact ⟨best.1, best.2, rfl, loses⟩

theorem newestUpTo_cons {best : Option (String × Instant)} {revision : String} {commit : Commit}
    (stored : depot.stored revision = .ok commit) (others : List String) :
    depot.newestUpTo limit best (revision :: others) =
      depot.newestUpTo limit
        (if commit.time.atOrBefore limit && beats best commit.time then
          some (revision, commit.time) else best) others := by
  rw [newestUpTo, stored]
  rfl

/-- The search among kept revisions comes to an end and has settled them all. -/
theorem Settles.search {passed : List String} {best : Option (String × Instant)}
    (settles : depot.Settles limit passed best)
    (kept : ∀ revision ∈ revisions, depot.Keeps revision) :
    ∃ final, depot.newestUpTo limit best revisions = .ok final ∧
      depot.Settles limit (passed ++ revisions) final := by
  induction revisions generalizing passed best with
  | nil => exact ⟨best, rfl, by rwa [List.append_nil]⟩
  | cons revision others ih =>
      obtain ⟨keeps, othersKept⟩ := List.forall_mem_cons.mp kept
      obtain ⟨commit, known⟩ := Option.isSome_iff_exists.mp keeps
      have stored := stored_eq_ok_iff.mpr known
      rw [newestUpTo_cons stored, List.append_cons]
      exact ih (settles.step (time?_of_stored stored)) othersKept

end

/-! ## Look-ups -/

inductive AnswersDate (depot : Depot) (branch : String) (limit : Instant) (revisions : List String) :
    Except Fault String → Prop where
  | none (late : ∀ revision ∈ revisions, depot.IsLater limit revision) :
      AnswersDate depot branch limit revisions
        (.error (.revisionNotFound branch (Specifier.sought (.date limit))))
  | some {before after : List String} {found : String} {time : Instant}
      (split : revisions = before ++ found :: after)
      (newest : depot.IsNewestUpTo limit before found after time) :
      AnswersDate depot branch limit revisions (.ok found)

namespace AnswersDate

variable {depot : Depot} {branch : String} {limit : Instant} {revisions : List String}
  {answer : Except Fault String}

theorem eq_none_iff (answers : depot.AnswersDate branch limit revisions answer) :
    answer = .error (.revisionNotFound branch (Specifier.sought (.date limit))) ↔
      ∀ revision ∈ revisions, depot.IsLater limit revision := by
  cases answers with
  | none late => exact ⟨fun _ => late, fun _ => rfl⟩
  | @some before after found time split newest =>
      constructor
      · intro impossible
        cases impossible
      · intro late
        refine absurd (late found ?_) newest.not_isLater
        rw [split]
        exact List.mem_append_right _ List.mem_cons_self

theorem eq_some_iff (answers : depot.AnswersDate branch limit revisions answer) {found : String} :
    answer = .ok found ↔
      ∃ before after time, revisions = before ++ found :: after ∧
        depot.IsNewestUpTo limit before found after time := by
  cases answers with
  | none late =>
      constructor
      · intro impossible
        cases impossible
      · rintro ⟨before, after, time, rfl, newest⟩
        exact absurd (late found (List.mem_append_right _ List.mem_cons_self)) newest.not_isLater
  | some split newest =>
      constructor
      · intro same
        cases same
        exact ⟨_, _, _, split, newest⟩
      · rintro ⟨before, after, time, otherSplit, otherNewest⟩
        rw [newest.unique otherNewest (split.symm.trans otherSplit)]

theorem error_or_ok (answers : depot.AnswersDate branch limit revisions answer) :
    answer = .error (.revisionNotFound branch (Specifier.sought (.date limit))) ∨
      ∃ found, answer = .ok found := by
  cases answers with
  | none late => exact .inl rfl
  | some split newest => exact .inr ⟨_, rfl⟩

end AnswersDate

/-- A date is answered by the search, which passes all revisions of a branch. -/
theorem answersDate_sought {depot : Depot} (whole : depot.IsWhole) {branch : String}
    {revisions : List String} (line : depot.line branch = .ok revisions) (limit : Instant) :
    depot.AnswersDate branch limit revisions (depot.sought branch (.date limit)) := by
  have kept : ∀ revision ∈ revisions, depot.Keeps revision := by
    rw [← revisions_of_line line]
    exact whole.lines branch
  have start : depot.Settles limit [] none := List.forall_mem_nil _
  obtain ⟨final, searched, settles⟩ := start.search kept
  rw [sought, line]
  change depot.AnswersDate branch limit revisions
    (((depot.newestUpTo limit none revisions).bind fun newest => .ok (newest.map Prod.fst)).bind _)
  rw [searched]
  cases final with
  | none => exact .none settles
  | some newest =>
      obtain ⟨before, after, split, newest⟩ := settles
      exact .some split newest

/-- In a depot that can be reached the look-up of a date finds no revision exactly when all of the
branch are later.  Else it finds the newest of those that are not, and of several newest ones the
last; so a later date never means an older revision. -/
theorem date_means_newest {Allows : String → Prop} {world : World Depot}
    (reached : Reached Allows world.store) {token : Token} (unfired : world.hasFired token = false)
    {branch : String} (reaches : world.store.failuresOf branch = 0) {revisions : List String}
    (line : world.store.line branch = .ok revisions) :
    (∀ limit, (backend.lookup token branch (.date limit) world).1 =
        .error (.revisionNotFound branch (Specifier.sought (.date limit))) ↔
      ∀ revision ∈ revisions, world.store.IsLater limit revision) ∧
    (∀ limit, (backend.lookup token branch (.date limit) world).1 =
        .error (.revisionNotFound branch (Specifier.sought (.date limit))) ∨
      ∃ found, (backend.lookup token branch (.date limit) world).1 = .ok found) ∧
    (∀ limit found, (backend.lookup token branch (.date limit) world).1 = .ok found ↔
      ∃ before after time, revisions = before ++ found :: after ∧
        world.store.IsNewestUpTo limit before found after time) ∧
    ∀ limit later found other, limit.atOrBefore later = true →
      (backend.lookup token branch (.date limit) world).1 = .ok found →
      (backend.lookup token branch (.date later) world).1 = .ok other →
      ∃ time ∈ world.store.time? found, ∃ otherTime ∈ world.store.time? other,
        time.atOrBefore otherTime = true := by
  have answers : ∀ limit, world.store.AnswersDate branch limit revisions
      (backend.lookup token branch (.date limit) world).1 := by
    intro limit
    change world.store.AnswersDate branch limit revisions
      ((lookup branch (.date limit)).call token world).1
    rw [call_of_quiet _ unfired, lookup_reached reaches]
    exact answersDate_sought reached.isWhole line limit
  refine ⟨fun limit => (answers limit).eq_none_iff, fun limit => (answers limit).error_or_ok,
    fun limit found => (answers limit).eq_some_iff, ?_⟩
  intro limit later found other limits answered otherAnswered
  obtain ⟨before, after, time, split, newest⟩ := (answers limit).eq_some_iff.mp answered
  obtain ⟨_, _, otherTime, otherSplit, otherNewest⟩ := (answers later).eq_some_iff.mp otherAnswered
  exact ⟨time, newest.dated, otherTime, otherNewest.dated,
    newest.mono limits otherNewest (split.symm.trans otherSplit)⟩

/-- A branch whose times go back and forth, with one of its revisions in it twice. -/
def unsortedDepot : Depot :=
  (((Depot.empty.commit "base" "b1" ⟨50, 0⟩ []).commit "base" "b2" ⟨20, 0⟩ []).commit
    "base" "b3" ⟨50, 0⟩ []).commit "base" "b2" ⟨20, 0⟩ []

theorem date_means_newest_unsortedDepot :
    (backend.lookup ⟨0, none⟩ "base" (.date ⟨60, 0⟩) (.initial unsortedDepot)).1 = .ok "b3" ∧
      (backend.lookup ⟨0, none⟩ "base" (.date ⟨49, 5⟩) (.initial unsortedDepot)).1 = .ok "b2" ∧
      (backend.lookup ⟨0, none⟩ "base" (.date ⟨19, 5⟩) (.initial unsortedDepot)).1 =
        .error (.revisionNotFound "base" "date:1970-01-01T00:00:19.000000005+00:00") := by
  have reached : Reached (fun _ => True) unsortedDepot :=
    .commit (.commit (.commit (.commit .empty "base" trivial ⟨50, 0⟩ _) "base" trivial ⟨20, 0⟩ _)
      "base" trivial ⟨50, 0⟩ _) "base" trivial ⟨20, 0⟩ _
  have spelled : Specifier.sought (.date ⟨19, 5⟩) = "date:1970-01-01T00:00:19.000000005+00:00" := by
    decide +kernel
  obtain ⟨none_iff, _, some_iff, _⟩ := @date_means_newest _ (.initial unsortedDepot) reached
    ⟨0, none⟩ rfl "base" rfl ["b1", "b2", "b3", "b2"] rfl
  refine ⟨(some_iff _ _).mpr ⟨["b1", "b2"], ["b2"], ⟨50, 0⟩, rfl, rfl, rfl, ?_, ?_⟩,
    (some_iff _ _).mpr ⟨["b1", "b2", "b3"], [], ⟨20, 0⟩, rfl, rfl, rfl, ?_, ?_⟩,
    ((none_iff ⟨19, 5⟩).mpr ?_).trans ?_⟩
  · decide +kernel
  · decide +kernel
  · decide +kernel
  · decide +kernel
  · exact List.forall_mem_cons.mpr ⟨⟨_, rfl, rfl⟩, List.forall_mem_cons.mpr ⟨⟨_, rfl, rfl⟩,
      List.forall_mem_cons.mpr ⟨⟨_, rfl, rfl⟩, List.forall_mem_singleton.mpr ⟨_, rfl, rfl⟩⟩⟩⟩
  · rw [spelled]

end Depot

end SourceRecipe
