import SourceRecipe.Proofs.Build.Account
import SourceRecipe.Proofs.Build.Resolution

/-!
# The account of a resolution

The trace of a resolution tells the look-ups that it takes: the branches of the tree that are not
known are asked for, each once and in the order of recipe text, until one is not found.  When all
were found, they are known from then on and pin the tree, and nothing is asked for when the tree is
resolved again.  When one was not, nothing is remembered.
-/

namespace SourceRecipe.Resolution

variable {σ : Type}

/-! ## Branches that are not known -/

/-- The branches of a tree that are not known, each where it stands first. -/
def wanted (known : Revisions) (tree : Tree Source) : List Source :=
  (tree.branches.filter fun source => known.get? source = none).eraseDups

theorem pending_eq_wanted (known : Revisions) (tree : Tree Source) :
    pending known tree = wanted known tree := by
  rw [pending, wanted, unknown_eq_eraseDups]
  congr 2
  funext source
  rw [decide_eq_decide]
  exact and_iff_left List.not_mem_nil

theorem nodup_unknown (known : Revisions) (seen sources : List Source) :
    (unknown known seen sources).Nodup := by
  induction sources generalizing seen with
  | nil => exact List.nodup_nil
  | cons source others ih =>
      rw [unknown]
      split
      · exact ih seen
      · refine List.nodup_cons.mpr ⟨?_, ih (source :: seen)⟩
        intro again
        exact (mem_unknown_iff.mp again).2.2 List.mem_cons_self

/-! ## Look-ups that are traced -/

def answered (found : List (Source × String)) : List (Source × Except Fault String) :=
  found.map fun (source, revision) => (source, .ok revision)

def lookedUp : Source × Except Fault String → TraceEvent
  | (source, answer) => .lookedUp source.location source.specifier answer

/-- What is asked for when some branches are looked up in order, and what comes of each of them:
all are found, or the others are left out after one that is not. -/
inductive Looks : List Source → List (Source × Except Fault String) → List (Outcome String) →
    Prop where
  | all (found : List (Source × String)) :
      Looks (found.map Prod.fst) (answered found) (found.map fun one => some (.ok one.2))
  | upTo (found : List (Source × String)) (source : Source) (fault : Fault)
      (others : List Source) :
      Looks (found.map Prod.fst ++ source :: others) (answered found ++ [(source, .error fault)])
        (found.map (fun one => some (.ok one.2)) ++
          some (.error (errorOf source fault)) :: others.map fun _ => none)

theorem Looks.next (source : Source) (revision : String) {others : List Source}
    {asked : List (Source × Except Fault String)} {outcomes : List (Outcome String)}
    (looks : Looks others asked outcomes) :
    Looks (source :: others) ((source, .ok revision) :: asked)
      (some (.ok revision) :: outcomes) := by
  cases looks with
  | all found => exact .all ((source, revision) :: found)
  | upTo found other fault others => exact .upTo ((source, revision) :: found) other fault others

/-- After a failure no look-up takes place. -/
theorem lookupAll_of_failed (backend : Backend σ) (token : Token) (sources : List Source)
    (world : World σ) :
    lookupAll backend token true sources world = (sources.map fun _ => none, world) := by
  induction sources with
  | nil => rfl
  | cons source others ih =>
      simp only [lookupAll, if_true, bind, StateT.bind, ih]
      rfl

/-- Look-ups are not changed by being traced. -/
theorem lookupAll_traced (backend : Backend σ) (token : Token) (sources : List Source)
    (trace : List TraceEvent) (world : World σ) :
    ∃ outcomes after asked, lookupAll backend token false sources world = (outcomes, after) ∧
      lookupAll backend.traced token false sources (world.traced trace) =
        (outcomes, after.traced (trace ++ asked.map lookedUp)) ∧
      Looks sources asked outcomes := by
  induction sources generalizing trace world with
  | nil =>
      refine ⟨[], world, [], rfl, ?_, .all []⟩
      rw [List.map_nil, List.append_nil]
      rfl
  | cons source others ih =>
      cases looked : backend.lookup token source.location source.specifier world with
      | mk answer between =>
          have recorded : backend.traced.lookup token source.location source.specifier
              (world.traced trace) =
                (answer, between.traced (trace ++ [lookedUp (source, answer)])) := by
            change (backend.lookup token source.location source.specifier).traced _ _ = _
            rw [Call.traced_run, looked]
            rfl
          rw [lookupAll_cons_eq looked, lookupAll_cons_eq recorded]
          cases answer with
          | error fault =>
              refine ⟨_, between, [(source, .error fault)], ?_, ?_, .upTo [] source fault others⟩
              · change (_ :: (lookupAll backend token true others between).1,
                  (lookupAll backend token true others between).2) = _
                rw [lookupAll_of_failed]
                rfl
              · change (_ :: (lookupAll backend.traced token true others _).1,
                  (lookupAll backend.traced token true others _).2) = _
                rw [lookupAll_of_failed]
                rfl
          | ok revision =>
              obtain ⟨outcomes, after, asked, plain, traced, looks⟩ :=
                ih (trace ++ [lookedUp (source, .ok revision)]) between
              refine ⟨_, after, _, ?_, ?_, looks.next source revision⟩
              · change (_ :: (lookupAll backend token false others between).1,
                  (lookupAll backend token false others between).2) = _
                rw [plain]
                rfl
              · change (_ :: (lookupAll backend.traced token false others _).1,
                  (lookupAll backend.traced token false others _).2) = _
                rw [traced, List.append_assoc]
                rfl

/-! ## Answers together -/

theorem combine_found (found : List (Source × String)) :
    combine (found.map fun one => some (.ok one.2)) = .ok (found.map Prod.snd) := by
  apply combine_eq_ok_iff.mpr
  rw [List.map_map]
  rfl

/-- The first failure counts. -/
theorem combine_upTo (found : List (Source × String)) (error : BuildError)
    (others : List (Outcome String)) :
    combine (found.map (fun one => some (.ok one.2)) ++ some (.error error) :: others) =
      .error error := by
  induction found with
  | nil => rfl
  | cons first found ih =>
      rw [List.map_cons, List.cons_append, combine_cons_ok, ih]
      rfl

/-! ## What is known afterwards -/

/-- What is found is known besides what was known already. -/
theorem get?_remember_iff {known : Revisions} {found : List (Source × String)}
    (once : (found.map Prod.fst).Nodup)
    (new : ∀ source ∈ found.map Prod.fst, known.get? source = none) {source : Source}
    {revision : String} :
    (remember known found).get? source = some revision ↔
      known.get? source = some revision ∨ (source, revision) ∈ found := by
  induction found generalizing known with
  | nil => exact (or_iff_left List.not_mem_nil).symm
  | cons first found ih =>
      obtain ⟨other, answer⟩ := first
      obtain ⟨apart, once⟩ := List.nodup_cons.mp once
      have unknown : known.get? other = none := new other List.mem_cons_self
      rw [remember, ih once]
      · rw [Dict.get?_put, List.mem_cons, Prod.mk.injEq]
        split
        · rename_i same
          subst same
          rw [unknown, Option.some_inj]
          constructor
          · rintro (rfl | later)
            · exact .inr (.inl ⟨rfl, rfl⟩)
            · exact .inr (.inr later)
          · rintro (impossible | ⟨_, rfl⟩ | later)
            · cases impossible
            · exact .inl rfl
            · exact .inr later
        · rename_i different
          exact or_congr_right (or_iff_right fun same => different same.1.symm).symm
      · intro later member
        rw [Dict.get?_put, if_neg]
        · exact new later (List.mem_cons_of_mem other member)
        · rintro rfl
          exact apart member

theorem noteAll_traced (found : List (Source × String)) (trace : List TraceEvent)
    (world : World σ) :
    noteAll found (world.traced trace) = (noteAll found world).traced trace := by
  induction found generalizing world with
  | nil => rfl
  | cons first found ih =>
      obtain ⟨source, revision⟩ := first
      exact ih (world.note .info (foundText source revision))

theorem pending_of_known {known : Revisions} {tree : Tree Source}
    (knows : ∀ source ∈ tree.branches, (known.get? source).isSome) : pending known tree = [] := by
  rw [List.eq_nil_iff_forall_not_mem]
  intro source asked
  obtain ⟨member, new, _⟩ := mem_unknown_iff.mp asked
  have there := knows source member
  rw [new] at there
  cases there

section

variable {known : Revisions} {tree : Tree Source} {found : List (Source × String)}

theorem get?_remember_of_order (order : pending known tree = found.map Prod.fst) {source : Source}
    {revision : String} :
    (remember known found).get? source = some revision ↔
      known.get? source = some revision ∨ (source, revision) ∈ found := by
  apply get?_remember_iff
  · rw [← order]
    exact nodup_unknown known [] tree.branches
  · rw [← order]
    intro other asked
    exact (mem_unknown_iff.mp asked).2.1

/-- Once all that is asked for is found, every branch of the tree is known. -/
theorem isSome_get?_remember (order : pending known tree = found.map Prod.fst)
    {source : Source} (member : source ∈ tree.branches) :
    ((remember known found).get? source).isSome := by
  rw [Option.isSome_iff_exists]
  cases already : known.get? source with
  | some revision => exact ⟨revision, (get?_remember_of_order order).mpr (.inl already)⟩
  | none =>
      have asked : source ∈ pending known tree :=
        mem_unknown_iff.mpr ⟨member, already, List.not_mem_nil⟩
      rw [order, List.mem_map] at asked
      obtain ⟨⟨_, revision⟩, one, rfl⟩ := asked
      exact ⟨revision, (get?_remember_of_order order).mpr (.inr one)⟩

/-- A tree is pinned by what is known once all that is asked for is found. -/
theorem resolve_of_found {backend : Backend σ} {token : Token} {world after : World σ}
    (order : pending known tree = found.map Prod.fst)
    (looked : lookupAll backend token false (pending known tree) world =
      (found.map fun one => some (.ok one.2), after)) :
    resolve backend token known tree world =
      ((.ok (tree.map (pinnedBy (answerOf (remember known found)))), remember known found),
        noteAll found after) := by
  have pairs : (pending known tree).zip (found.map Prod.snd) = found := by
    rw [order, List.zip_map']
    exact List.map_id found
  rw [resolve, resolveBy_eq_of_ok looked (combine_found found), pairs]
  have pinned : pinTree (remember known found) tree =
      .ok (tree.map (pinnedBy (answerOf (remember known found)))) :=
    pinTree_eq_ok_iff.mpr ⟨fun source member => isSome_get?_remember order member, rfl⟩
  rw [pinned]

/-- A tree whose branches are all known is pinned by what is known, and nothing is asked for. -/
theorem resolve_of_known {backend : Backend σ} {token : Token} {world : World σ}
    (knows : ∀ source ∈ tree.branches, (known.get? source).isSome) :
    resolve backend token known tree world =
      ((.ok (tree.map (pinnedBy (answerOf known))), known), world) := by
  have none : pending known tree = List.map Prod.fst ([] : List (Source × String)) :=
    pending_of_known knows
  apply resolve_of_found none
  rw [none]
  rfl

end

/-! ## The account -/

/-- What becomes of a resolution that asks for some branches: all branches that are not known were
found, or the first of them were and the next one was not. -/
inductive Resolves (known : Revisions) (tree : Tree Source) :
    List (Source × Except Fault String) → Except BuildError (Tree Pinned) → Revisions → Prop where
  | all {found : List (Source × String)} {answers : Source → String} {later : Revisions}
      (order : wanted known tree = found.map Prod.fst)
      (remembers : ∀ source revision, later.get? source = some revision ↔
        known.get? source = some revision ∨ (source, revision) ∈ found)
      (pins : ∀ source ∈ tree.branches, later.get? source = some (answers source)) :
      Resolves known tree (answered found) (.ok (tree.map (pinnedBy answers))) later
  | upTo {found : List (Source × String)} {source : Source} {fault : Fault} {others : List Source}
      (order : wanted known tree = found.map Prod.fst ++ source :: others) :
      Resolves known tree (answered found ++ [(source, .error fault)])
        (.error (errorOf source fault)) known

/-- A resolution asks for the branches that are not known, each once and in the order of recipe
text, up to the first that is not found.  When all are found, they are what is known from then on
besides what was known before, the tree is pinned by what is known, and resolving it again asks
nothing of any system.  When one is not found, nothing is remembered. -/
theorem resolve_account (backend : Backend σ) (token : Token) (known : Revisions)
    (tree : Tree Source) (trace : List TraceEvent) (world : World σ) :
    ∃ result later after asked,
      resolve backend token known tree world = ((result, later), after) ∧
      resolve backend.traced token known tree (world.traced trace) =
        ((result, later), after.traced (trace ++ asked.map lookedUp)) ∧
      Resolves known tree asked result later ∧
      ∀ pinned, result = .ok pinned →
        ∀ (τ : Type) (other : Backend τ) (otherToken : Token) (elsewhere : World τ),
          resolve other otherToken later tree elsewhere = ((.ok pinned, later), elsewhere) := by
  obtain ⟨outcomes, between, asked, plain, traced, looks⟩ :=
    lookupAll_traced backend token (pending known tree) trace world
  generalize order : pending known tree = sources at looks
  have listed : wanted known tree = sources := by
    rw [← pending_eq_wanted, order]
  cases looks with
  | upTo found source fault others =>
      refine ⟨_, known, between, _, resolveBy_eq_of_error plain (combine_upTo found _ _),
        resolveBy_eq_of_error traced (combine_upTo found _ _), .upTo listed, ?_⟩
      intro pinned impossible
      cases impossible
  | all found =>
      have knows : ∀ source ∈ tree.branches, ((remember known found).get? source).isSome :=
        fun source member => isSome_get?_remember order member
      refine ⟨_, _, _, _, resolve_of_found order plain, ?_, .all listed ?_ ?_, ?_⟩
      · rw [resolve_of_found order traced, noteAll_traced]
      · exact fun source revision => get?_remember_of_order order
      · intro source member
        obtain ⟨revision, known⟩ := Option.isSome_iff_exists.mp (knows source member)
        rw [answerOf, known]
        rfl
      · rintro pinned same τ other otherToken elsewhere
        cases same
        exact resolve_of_known knows

end SourceRecipe.Resolution
