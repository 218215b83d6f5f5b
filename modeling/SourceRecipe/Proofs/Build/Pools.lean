import SourceRecipe.Proofs.Build.Workers

/-!
# Trees pinned by a pool of workers

A pool of workers finds the same revisions as one worker, and pins the same tree.  When some
look-ups fail, the error may be another one: a worker can leave out the first branch that is not to
be found after another worker was told that a later one is not to be found.
-/

namespace SourceRecipe.Resolution

variable {σ : Type}

/-! ## The first failure -/

/-- An error is the first one that look-ups side by side tell of: the branches before it were found
or left out. -/
inductive TellsFirst (given : Source → Except BuildError String) (error : BuildError) :
    List Source → List (Outcome String) → Prop where
  | here {source : Source} (fails : given source = .error error) (sources : List Source)
      (outcomes : List (Outcome String)) :
      TellsFirst given error (source :: sources) (some (.error error) :: outcomes)
  | next {source : Source} {outcome : Outcome String} {sources : List Source}
      {outcomes : List (Outcome String)} (silent : outcome.error? = none)
      (tells : TellsFirst given error sources outcomes) :
      TellsFirst given error (source :: sources) (outcome :: outcomes)

/-- The first branch that is not to be found was left out, and a later one was told of. -/
inductive Overtaken (given : Source → Except BuildError String) (expected told : BuildError) :
    List Source → List (Outcome String) → Prop where
  | here {source : Source} {sources : List Source} {outcomes : List (Outcome String)}
      (fails : given source = .error expected) (tells : TellsFirst given told sources outcomes) :
      Overtaken given expected told (source :: sources) (none :: outcomes)
  | next {source : Source} {revision : String} {outcome : Outcome String} {sources : List Source}
      {outcomes : List (Outcome String)} (found : given source = .ok revision)
      (silent : outcome.error? = none) (later : Overtaken given expected told sources outcomes) :
      Overtaken given expected told (source :: sources) (outcome :: outcomes)

theorem HasFailure.of_cons {α : Type} {outcome : Outcome α} {others : List (Outcome α)}
    (failed : HasFailure (outcome :: others)) (silent : outcome.error? = none) :
    HasFailure others := by
  obtain ⟨error, member⟩ := failed
  rcases List.mem_cons.mp member with rfl | later
  · cases silent
  · exact ⟨error, later⟩

/-- A look-up that was left out says nothing where another one failed. -/
theorem combine_cons_none {α : Type} {others : List (Outcome α)} (failed : HasFailure others) :
    combine (none :: others) = combine others := by
  obtain ⟨error, member⟩ := failed
  have errors : (none :: others).findSome? Outcome.error? = others.findSome? Outcome.error? := rfl
  rw [combine, combine, errors]
  cases first : others.findSome? Outcome.error? with
  | some error => rfl
  | none => cases List.findSome?_eq_none_iff.mp first _ member

section

variable {given : Source → Except BuildError String} {sources : List Source}
  {outcomes : List (Outcome String)}

theorem exists_tellsFirst
    (gives : List.Forall₂ (fun source outcome => ∀ answer, outcome = some answer →
      answer = given source) sources outcomes)
    (failed : HasFailure outcomes) :
    ∃ error, TellsFirst given error sources outcomes ∧ combine outcomes = .error error := by
  induction gives with
  | nil =>
      obtain ⟨_, impossible⟩ := failed
      cases impossible
  | @cons source outcome sources outcomes gives _ ih =>
      match outcome with
      | some (.error error) => exact ⟨error, .here (gives _ rfl).symm sources outcomes, rfl⟩
      | some (.ok revision) =>
          obtain ⟨error, tells, combined⟩ := ih (failed.of_cons rfl)
          refine ⟨error, .next rfl tells, ?_⟩
          rw [combine_cons_ok, combined]
          rfl
      | none =>
          obtain ⟨error, tells, combined⟩ := ih (failed.of_cons rfl)
          refine ⟨error, .next rfl tells, ?_⟩
          rw [combine_cons_none (failed.of_cons rfl), combined]

/-- Look-ups side by side give together what all answers give, unless the first branch that is not
to be found was left out. -/
theorem combine_eq_or_overtaken
    (excused : AreExcused (fun source answer => answer = given source) sources outcomes) :
    combine outcomes = combine (sources.map fun source => some (given source)) ∨
      ∃ expected told, Overtaken given expected told sources outcomes ∧
        combine (sources.map fun source => some (given source)) = .error expected ∧
        combine outcomes = .error told := by
  obtain ⟨gives, excused⟩ := excused
  induction gives with
  | nil => exact .inl rfl
  | @cons source outcome sources outcomes gives others ih =>
      match outcome with
      | some (.error error) =>
          rw [List.map_cons, ← gives _ rfl]
          exact .inl rfl
      | some (.ok revision) =>
          have found : given source = .ok revision := (gives _ rfl).symm
          have later : none ∈ outcomes → HasFailure outcomes :=
            fun skipped => (excused (List.mem_cons_of_mem _ skipped)).of_cons rfl
          rw [List.map_cons, found, combine_cons_ok, combine_cons_ok]
          rcases ih later with same | ⟨expected, told, overtaken, first, second⟩
          · rw [same]
            exact .inl rfl
          · rw [first, second]
            exact .inr ⟨expected, told, .next found rfl overtaken, rfl, rfl⟩
      -- What was left out is passed over, and the failure that excuses it stands behind it.
      | none =>
          have failed : HasFailure outcomes := (excused List.mem_cons_self).of_cons rfl
          obtain ⟨told, tells, combined⟩ := exists_tellsFirst others failed
          rw [List.map_cons, combine_cons_none failed]
          cases answer : given source with
          | error expected => exact .inr ⟨expected, told, .here answer tells, rfl, combined⟩
          | ok revision =>
              rw [combine_cons_ok]
              rcases ih (fun _ => failed) with same | ⟨expected, told, overtaken, first, second⟩
              · rw [← same, combined]
                exact .inl rfl
              · rw [first, second]
                exact .inr ⟨expected, told, .next answer rfl overtaken, rfl, rfl⟩

/-- Look-ups side by side that each have an answer give all answers. -/
theorem lookupBy_complete {backend : Backend σ} {token : Token} {Keeps : World σ → Prop}
    {world : World σ} {answers : Source → String}
    (looks : ∀ source ∈ sources, ∀ before, Keeps before → ∃ later,
      backend.lookup token source.location source.specifier before =
        (.ok (answers source), later) ∧ Keeps later)
    (kept : Keeps world) (turns : (count : Nat) → Turns count) :
    ∃ after, lookupBy backend token turns sources world =
      ((sources.map answers).map fun found => some (.ok found), after) ∧ Keeps after := by
  have answered : ∀ source ∈ sources, ∀ before, Keeps before →
      (lookup backend token source before).1 = .ok (answers source) ∧
        Keeps (lookup backend token source before).2 := by
    intro source member before kept
    obtain ⟨later, looked, keeps⟩ := looks source member before kept
    rw [lookup_eq_ok_iff.mpr looked]
    exact ⟨rfl, keeps⟩
  obtain ⟨sound, keeps⟩ := @advanceAll_sound σ (fun source answer => answer = .ok (answers source))
    sources backend token Keeps answered _ _ world (isSound_ofSources (turns sources.length)) kept
  have all : combine (sources.map fun source => some (.ok (answers source))) =
      .ok (sources.map answers) := by
    rw [combine_eq_ok_iff, List.map_map]
    rfl
  refine ⟨_, Prod.ext ?_ rfl, keeps⟩
  apply combine_eq_ok_iff.mp
  rcases combine_eq_or_overtaken sound.areExcused with same | ⟨_, _, _, impossible, _⟩
  · exact same.trans all
  · cases impossible.symm.trans all

end

/-! ## Trees -/

section

variable {backend : Backend σ} {token : Token} {known : Revisions} {tree : Tree Source}
  {world : World σ} {Keeps : World σ → Prop}

/-- Look-ups one after the other give together what all answers give. -/
theorem combine_lookupAll {answers : Source → Except Fault String} {sources : List Source}
    (looks : ∀ source ∈ sources, ∀ before, Keeps before → ∃ later,
      backend.lookup token source.location source.specifier before = (answers source, later) ∧
        Keeps later)
    (kept : Keeps world) :
    combine (lookupAll backend token false sources world).1 =
      combine (sources.map fun source => some ((answers source).mapError (errorOf source))) := by
  induction sources generalizing world with
  | nil => rfl
  | cons source others ih =>
      obtain ⟨between, looked, kept⟩ := looks source List.mem_cons_self world kept
      rw [lookupAll_cons_eq looked, List.map_cons]
      cases answers source with
      | error fault => rfl
      | ok revision =>
          change combine (some (.ok revision) :: (lookupAll backend token false others between).1) =
            combine (some (.ok revision) :: _)
          rw [combine_cons_ok, combine_cons_ok,
            ih (fun other member => looks other (List.mem_cons_of_mem source member)) kept]

/-- What look-ups give together decides which tree is pinned and what is remembered. -/
theorem resolveBy_fst_eq {look other : List Source → StateM (World σ) (List (Outcome String))}
    (same : combine (look (pending known tree) world).1 =
      combine (other (pending known tree) world).1) :
    (resolveBy look known tree world).1 = (resolveBy other known tree world).1 := by
  cases combined : combine (look (pending known tree) world).1 with
  | error error =>
      rw [resolveBy_eq_of_error rfl combined, resolveBy_eq_of_error rfl (same.symm.trans combined)]
  | ok revisions =>
      rw [resolveBy_eq_of_ok rfl combined, resolveBy_eq_of_ok rfl (same.symm.trans combined)]

/-- However a number of workers share the look-ups, a pinned tree has at each branch a revision that
its look-up means. -/
theorem resolveWith_sound {Means : Source → String → Prop} {workers : Nat} {pool : Pool}
    {pinned : Tree Pinned} {later : Revisions} {after : World σ}
    (looks : ∀ source before revision later, Keeps before →
      backend.lookup token source.location source.specifier before = (.ok revision, later) →
      Means source revision ∧ Keeps later)
    (notes : ∀ level text before, Keeps before → Keeps (before.note level text))
    (resolved : resolveWith backend token workers pool .empty tree world =
      ((.ok pinned, later), after)) (kept : Keeps world) :
    ∃ answers, pinned = tree.map (pinnedBy answers) ∧
      (∀ source ∈ tree.branches, Means source (answers source)) ∧ Keeps after := by
  obtain ⟨turns, same⟩ := lookupWith_eq_lookupBy workers pool (pending .empty tree)
  refine resolveBy_sound (fun revisions between looked => ?_) notes resolved
  rw [same] at looked
  exact lookupBy_sound looks looked kept

/-- However a number of workers share the look-ups, a tree is pinned when the look-up of each branch
gives an answer. -/
theorem resolveWith_complete {answers : Source → String}
    (looks : ∀ source ∈ tree.branches, ∀ before, Keeps before → ∃ later,
      backend.lookup token source.location source.specifier before =
        (.ok (answers source), later) ∧ Keeps later)
    (notes : ∀ level text before, Keeps before → Keeps (before.note level text))
    (kept : Keeps world) (workers : Nat) (pool : Pool) :
    ∃ later after, resolveWith backend token workers pool .empty tree world =
      ((.ok (tree.map (pinnedBy answers)), later), after) ∧ Keeps after := by
  obtain ⟨turns, same⟩ := lookupWith_eq_lookupBy workers pool (pending .empty tree)
  have asks : ∀ source ∈ pending .empty tree, ∀ before, Keeps before → ∃ later,
      backend.lookup token source.location source.specifier before =
        (.ok (answers source), later) ∧ Keeps later :=
    fun source asked => looks source (mem_unknown_iff.mp asked).1
  obtain ⟨between, looked, keeps⟩ := lookupBy_complete asks kept turns
  rw [← same] at looked
  exact resolveBy_complete looked notes keeps

/-- One worker looks up one branch after the other. -/
theorem resolveWith_eq_resolve {workers : Nat} (pool : Pool)
    (alone : workers ≤ 1 ∨ (pending known tree).length = 1) :
    resolveWith backend token workers pool known tree = resolve backend token known tree := by
  rw [resolveWith, resolve, resolveBy, resolveBy]
  simp only [lookupWith, if_pos alone]

/-- Workers who take turns pin a tree as one worker does. -/
theorem resolveWith_inTurn (workers : Nat) :
    resolveWith backend token workers .inTurn known tree = resolve backend token known tree := by
  have alike : lookupWith backend token workers .inTurn = lookupAll backend token false := by
    funext sources world
    rw [lookupWith]
    split
    · rfl
    · exact lookupBy_inTurn sources
  rw [resolveWith, alike, resolve]

theorem resolveWith_eq_resolveBy {workers : Nat} (pool : Pool)
    (several : ¬(workers ≤ 1 ∨ (pending known tree).length = 1)) :
    resolveWith backend token workers pool known tree =
      resolveBy (lookupBy backend token (pool workers)) known tree := by
  rw [resolveWith, resolveBy, resolveBy]
  simp only [lookupWith, if_neg several]

/-- Where every look-up has its answer, a pool of workers pins the tree that one worker pins and
remembers the same revisions, or fails with the same error, however its workers take turns; unless
the first branch that is not to be found was left out, and the error is about a later one. -/
theorem resolveWith_eq_or_overtaken {answers : Source → Except Fault String}
    (looks : ∀ source ∈ pending known tree, ∀ before, Keeps before → ∃ later,
      backend.lookup token source.location source.specifier before = (answers source, later) ∧
        Keeps later)
    (kept : Keeps world) (workers : Nat) (pool : Pool) :
    (resolveWith backend token workers pool known tree world).1 =
        (resolve backend token known tree world).1 ∨
      ∃ expected told,
        Overtaken (fun source => (answers source).mapError (errorOf source)) expected told
          (pending known tree)
          (lookupBy backend token (pool workers) (pending known tree) world).1 ∧
        (resolve backend token known tree world).1 = (.error expected, known) ∧
        (resolveWith backend token workers pool known tree world).1 = (.error told, known) := by
  by_cases alone : workers ≤ 1 ∨ (pending known tree).length = 1
  · rw [resolveWith_eq_resolve pool alone]
    exact .inl rfl
  · have answered : ∀ source ∈ pending known tree, ∀ before, Keeps before →
        (lookup backend token source before).1 = (answers source).mapError (errorOf source) ∧
          Keeps (lookup backend token source before).2 := by
      intro source asked before kept
      obtain ⟨later, looked, keeps⟩ := looks source asked before kept
      rw [lookup, looked]
      exact ⟨rfl, keeps⟩
    have excused : AreExcused
        (fun source answer => answer = (answers source).mapError (errorOf source))
        (pending known tree) (lookupBy backend token (pool workers) (pending known tree) world).1 :=
      lookupBy_excused answered kept (pool workers)
    have inOrder := combine_lookupAll looks kept
    rw [resolveWith_eq_resolveBy pool alone, resolve]
    rcases combine_eq_or_overtaken excused with same | ⟨expected, told, overtaken, first, second⟩
    · exact .inl (resolveBy_fst_eq (same.trans inOrder.symm))
    · refine .inr ⟨expected, told, overtaken, ?_, ?_⟩
      · rw [resolveBy_eq_of_error rfl (inOrder.trans first)]
      · rw [resolveBy_eq_of_error rfl second]

end

/-! ## A worker that lags -/

def taglessDepot : Depot :=
  (((Depot.empty.commit "base" "b1" ⟨0, 0⟩ [("README", "1")]).commit "one" "o1" ⟨1, 0⟩
    [("one.c", "1")]).commit "two" "t1" ⟨2, 0⟩ [("two.c", "2")]).commit "three" "h1" ⟨3, 0⟩
    [("three.c", "3")]

/-- A base with tags merged into it that are not there. -/
def taglessTree : Tree Source :=
  ⟨⟨"base", .tip⟩, .step "a" .merge ⟨"one", .tag "nope"⟩ .done
    (.step "b" .merge ⟨"two", .tag "nope"⟩ .done
      (.step "c" .merge ⟨"three", .tag "nope"⟩ .done .done))⟩

/-- A look-up in the depot without tags answers the same at any time. -/
theorem lookup_taglessDepot (count : Nat) : ∀ source ∈ pending .empty taglessTree,
    Depot.backend.lookup ⟨0, none⟩ source.location source.specifier
        (.initial { taglessDepot with lookups := count }) =
      (taglessDepot.answer source, .initial { taglessDepot with lookups := count + 1 }) := by
  intro source asked
  have member : source ∈ taglessTree.branches := (mem_unknown_iff.mp asked).1
  simp only [taglessTree, Tree.branches, Instructions.branches, List.nil_append, List.mem_cons,
    List.not_mem_nil, or_false] at member
  rcases member with rfl | rfl | rfl | rfl
  · rfl
  · rfl
  · rfl
  · rfl

theorem resolve_taglessTree :
    (resolve Depot.backend ⟨0, none⟩ .empty taglessTree (.initial taglessDepot)).1 =
      (.error (.revisionNotFound "one" "tag:nope"), .empty) := rfl

theorem resolveWith_taglessTree :
    (resolveWith Depot.backend ⟨0, none⟩ 2 .lagging .empty taglessTree (.initial taglessDepot)).1 =
      (.error (.revisionNotFound "two" "tag:nope"), .empty) := rfl

theorem resolveWith_eq_or_overtaken_taglessTree :
    Overtaken (fun source => (taglessDepot.answer source).mapError (errorOf source))
      (.revisionNotFound "one" "tag:nope") (.revisionNotFound "two" "tag:nope")
      (pending .empty taglessTree)
      (lookupBy Depot.backend ⟨0, none⟩ (Pool.lagging 2) (pending .empty taglessTree)
        (.initial taglessDepot)).1 := by
  have looks : ∀ source ∈ pending .empty taglessTree, ∀ before,
      (∃ count, before = .initial { taglessDepot with lookups := count }) →
      ∃ later, Depot.backend.lookup ⟨0, none⟩ source.location source.specifier before =
          (taglessDepot.answer source, later) ∧
        ∃ count, later = .initial { taglessDepot with lookups := count } := by
    rintro source asked _ ⟨count, rfl⟩
    exact ⟨_, lookup_taglessDepot count source asked, count + 1, rfl⟩
  rcases resolveWith_eq_or_overtaken looks ⟨0, rfl⟩ 2 .lagging with
    same | ⟨expected, told, overtaken, first, second⟩
  · obtain ⟨errors, _⟩ := Prod.mk.inj (resolveWith_taglessTree.symm.trans
      (same.trans resolve_taglessTree))
    obtain ⟨impossible, _⟩ := BuildError.revisionNotFound.inj (Except.error.inj errors)
    exact absurd impossible (by decide)
  · cases resolve_taglessTree.symm.trans first
    cases resolveWith_taglessTree.symm.trans second
    exact overtaken

/-- One worker tells of the first branch that has no such tag, and two workers of the second one,
though every look-up answers the same at any time. -/
theorem not_first_of_lagging_worker :
    (∀ count, ∀ source ∈ pending .empty taglessTree,
      Depot.backend.lookup ⟨0, none⟩ source.location source.specifier
          (.initial { taglessDepot with lookups := count }) =
        (taglessDepot.answer source, .initial { taglessDepot with lookups := count + 1 })) ∧
      (resolve Depot.backend ⟨0, none⟩ .empty taglessTree (.initial taglessDepot)).1 =
        (.error (.revisionNotFound "one" "tag:nope"), .empty) ∧
      (resolveWith Depot.backend ⟨0, none⟩ 2 .lagging .empty taglessTree
        (.initial taglessDepot)).1 = (.error (.revisionNotFound "two" "tag:nope"), .empty) :=
  ⟨lookup_taglessDepot, resolve_taglessTree, resolveWith_taglessTree⟩

end SourceRecipe.Resolution
