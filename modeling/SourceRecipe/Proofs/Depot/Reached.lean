import SourceRecipe.Proofs.Depot.Ancestry
import SourceRecipe.Proofs.Depot.Requests
import SourceRecipe.Proofs.Text.Padding

/-!
# Depots that can be reached

A depot is reached from the empty one by commits, branches, tags and calls of any kind.  In such a
depot every revision of a branch, every parent of a commit and every head of a tree is kept, and
where no commit was given the id of a merge, the ids of merges to come are free.
-/

namespace SourceRecipe.Depot

/-- Whether a depot is reached from the empty one, all commits having ids that are allowed. -/
inductive Reached (Allows : String → Prop) : Depot → Prop where
  | empty : Reached Allows .empty
  | commit {depot : Depot} (reached : Reached Allows depot) (branch : String) {revision : String}
      (allowed : Allows revision) (time : Time.Instant) (changes : List (String × String)) :
      Reached Allows (depot.commit branch revision time changes)
  | branchFrom {depot : Depot} (reached : Reached Allows depot) (branch source : String) :
      Reached Allows (depot.branchFrom branch source)
  | setTag {depot : Depot} (reached : Reached Allows depot) (branch tag revision : String) :
      Reached Allows (depot.setTag branch tag revision)
  | failTimes {depot : Depot} (reached : Reached Allows depot) (branch : String) (times : Nat) :
      Reached Allows (depot.failTimes branch times)
  | lookup {depot : Depot} (reached : Reached Allows depot) (branch : String)
      (specifier : Specifier) : Reached Allows (Depot.lookup branch specifier depot).2
  | checkout {depot : Depot} (reached : Reached Allows depot) (branch revision : String)
      (target : Path) : Reached Allows (Depot.checkout branch revision target depot).2
  | merge {depot : Depot} (reached : Reached Allows depot) (path : Path)
      (branch revision message : String) :
      Reached Allows (Depot.merge path branch revision message depot).2

/-! ## Kept revisions -/

def Keeps (depot : Depot) (revision : String) : Prop :=
  (depot.history.get? revision).isSome

theorem stored_eq_ok_iff {depot : Depot} {revision : String} {commit : Commit} :
    depot.stored revision = .ok commit ↔ depot.history.get? revision = some commit := by
  rw [stored]
  cases depot.history.get? revision with
  | none => exact ⟨fun impossible => (by cases impossible), fun impossible => (by cases impossible)⟩
  | some other => exact ⟨fun same => (by cases same; rfl), fun same => (by cases same; rfl)⟩

theorem keeps_of_get? {depot : Depot} {revision : String} {commit : Commit}
    (kept : depot.history.get? revision = some commit) : depot.Keeps revision := by
  rw [Keeps, kept]
  rfl

theorem keeps_of_stored {depot : Depot} {revision : String} {commit : Commit}
    (stored : depot.stored revision = .ok commit) : depot.Keeps revision :=
  keeps_of_get? (stored_eq_ok_iff.mp stored)

theorem revisions_of_line {depot : Depot} {branch : String} {found : List String}
    (line : depot.line branch = .ok found) : depot.revisions branch = found := by
  rw [Depot.line] at line
  rw [revisions]
  cases known : depot.branches.get? branch with
  | none =>
      rw [known] at line
      cases line
  | some revisions =>
      rw [known] at line
      cases line
      rfl

/-- A branch is asked for a revision with success when it can be reached and has it. -/
theorem answer_revision_eq_ok_iff {depot : Depot} {branch revision found : String} :
    depot.answer ⟨branch, .revision revision⟩ = .ok found ↔
      depot.Reaches branch ∧ revision ∈ depot.revisions branch ∧ found = revision := by
  rw [answer_eq_ok_iff]
  constructor
  · rintro ⟨reaches, revisions, line, sought⟩
    rw [find] at sought
    by_cases member : revision ∈ revisions
    · rw [if_pos member] at sought
      cases sought
      rw [revisions_of_line line]
      exact ⟨reaches, member, rfl⟩
    · rw [if_neg member] at sought
      cases sought
  · rintro ⟨reaches, member, rfl⟩
    rw [revisions] at member
    cases known : depot.branches.get? branch with
    | none =>
        rw [known] at member
        cases member
    | some others =>
        rw [known] at member
        refine ⟨reaches, others, ?_, congrArg Except.ok (if_pos member)⟩
        rw [line, known]

/-- Whether every revision of a branch and every parent of a commit is kept. -/
structure IsWhole (depot : Depot) : Prop where
  lines : ∀ branch, ∀ revision ∈ depot.revisions branch, depot.Keeps revision
  parents : ∀ revision, ∀ parent ∈ depot.history.parents revision, depot.Keeps parent

section

variable {depot after : Depot} {id : String} {added : Commit}

theorem Keeps.put {revision : String} (keeps : depot.Keeps revision) :
    Keeps { depot with history := depot.history.put id added } revision := by
  rw [Keeps, Dict.get?_put]
  by_cases same : id = revision
  · rw [if_pos same]
    rfl
  · rw [if_neg same]
    exact keeps

theorem keeps_put_self : Keeps { depot with history := depot.history.put id added } id := by
  rw [Keeps, Dict.get?_put_self]
  rfl

/-- Whether a depot is whole is a matter of its history and its branches. -/
theorem IsWhole.congr (whole : depot.IsWhole) (history : after.history = depot.history)
    (branches : after.branches = depot.branches) : after.IsWhole := by
  refine ⟨fun branch revision member => ?_, fun revision parent above => ?_⟩
  · rw [revisions, branches] at member
    rw [Keeps, history]
    exact whole.lines branch revision member
  · rw [history] at above
    rw [Keeps, history]
    exact whole.parents revision parent above

theorem IsWhole.counted (whole : depot.IsWhole) (counted : depot.OnlyCounted after) :
    after.IsWhole :=
  whole.congr counted.history counted.branches

/-- A commit on kept parents leaves nothing out. -/
theorem IsWhole.put (whole : depot.IsWhole) (parents : ∀ parent ∈ added.parents, depot.Keeps parent) :
    IsWhole { depot with history := depot.history.put id added } := by
  refine ⟨fun branch revision member => (whole.lines branch revision member).put,
    fun revision parent above => ?_⟩
  rw [History.parents_put] at above
  by_cases same : id = revision
  · rw [if_pos same] at above
    exact (parents parent above).put
  · rw [if_neg same] at above
    exact (whole.parents revision parent above).put

theorem IsWhole.commit (whole : depot.IsWhole) (branch revision : String) (time : Time.Instant)
    (changes : List (String × String)) :
    (depot.commit branch revision time changes).IsWhole := by
  have last : ∀ parent ∈ (depot.revisions branch).getLast?.toList, depot.Keeps parent :=
    fun parent above => whole.lines branch parent (List.mem_of_getLast? (Option.mem_toList.mp above))
  refine ⟨fun other kept member => ?_, (whole.put last).parents⟩
  rw [revisions, Depot.commit, Dict.get?_put] at member
  by_cases same : branch = other
  · rw [if_pos same, Option.getD_some, List.mem_append, List.mem_singleton] at member
    rcases member with earlier | rfl
    · exact (whole.lines branch kept earlier).put
    · exact keeps_put_self
  · rw [if_neg same] at member
    exact (whole.lines other kept member).put

theorem IsWhole.branchFrom (whole : depot.IsWhole) (branch source : String) :
    (depot.branchFrom branch source).IsWhole := by
  refine ⟨fun other kept member => ?_, whole.parents⟩
  rw [revisions, Depot.branchFrom, Dict.get?_put] at member
  by_cases same : branch = other
  · rw [if_pos same, Option.getD_some] at member
    exact whole.lines source kept member
  · rw [if_neg same] at member
    exact whole.lines other kept member

theorem IsWhole.checkout (whole : depot.IsWhole) {branch revision : String} {target : Path}
    {result : Except Fault Unit}
    (asked : Depot.checkout branch revision target depot = (result, after)) : after.IsWhole := by
  cases result with
  | error fault => exact whole.counted (checkout_eq_error asked).1
  | ok made =>
      obtain ⟨_, _, _, _, _, _, _, rfl⟩ := checkout_eq_ok_iff.mp asked
      exact whole.congr rfl rfl

theorem IsWhole.merge (whole : depot.IsWhole) {path : Path} {branch revision message : String}
    {result : Except Fault MergeOutcome}
    (asked : Depot.merge path branch revision message depot = (result, after)) : after.IsWhole := by
  cases result with
  | error fault => exact whole.counted (merge_eq_error asked).1
  | ok outcome =>
      obtain ⟨_, tree, theirs, _, kept, ⟨_, _, rfl⟩ | ⟨_, _, base, head, _, _, ours, rfl⟩⟩ :=
        merge_eq_ok_iff.mp asked
      · exact whole
      · refine (whole.put ?_).congr rfl rfl
        exact List.forall_mem_cons.mpr
          ⟨keeps_of_stored ours, List.forall_mem_singleton.mpr (keeps_of_stored kept)⟩

end

theorem Reached.isWhole {Allows : String → Prop} {depot : Depot} (reached : Reached Allows depot) :
    depot.IsWhole := by
  induction reached with
  | empty =>
      refine ⟨fun branch revision impossible => ?_, fun revision parent impossible => ?_⟩
      · cases impossible
      · cases impossible
  | commit _ branch _ time changes whole => exact whole.commit branch _ time changes
  | branchFrom _ branch source whole => exact whole.branchFrom branch source
  | setTag _ branch tag revision whole => exact whole.congr rfl rfl
  | failTimes _ branch times whole => exact whole.congr rfl rfl
  | lookup _ branch specifier whole => exact whole.counted (lookup_onlyCounted branch specifier _)
  | checkout _ branch revision target whole => exact whole.checkout rfl
  | merge _ path branch revision message whole => exact whole.merge rfl

/-! ## Heads of trees -/

def KeepsHeads (depot : Depot) : Prop :=
  ∀ place, ∀ tree ∈ depot.trees.get? place, depot.Keeps tree.head

section

variable {depot after : Depot}

theorem KeepsHeads.congr (keeps : depot.KeepsHeads) (history : after.history = depot.history)
    (trees : after.trees = depot.trees) : after.KeepsHeads := by
  intro place tree found
  rw [trees] at found
  rw [Keeps, history]
  exact keeps place tree found

theorem KeepsHeads.counted (keeps : depot.KeepsHeads) (counted : depot.OnlyCounted after) :
    after.KeepsHeads :=
  keeps.congr counted.history counted.trees

theorem KeepsHeads.put (keeps : depot.KeepsHeads) (id : String) (added : Commit) :
    KeepsHeads { depot with history := depot.history.put id added } :=
  fun place tree found => (keeps place tree found).put

theorem KeepsHeads.move (keeps : depot.KeepsHeads) (place : List PathPart) {tree : WorkingTree}
    (head : depot.Keeps tree.head) : KeepsHeads { depot with trees := depot.trees.put place tree } := by
  intro other stands there
  rw [Dict.get?_put] at there
  split at there
  · cases there
    exact head
  · exact keeps other stands there

theorem KeepsHeads.checkout (keeps : depot.KeepsHeads) {branch revision : String} {target : Path}
    {result : Except Fault Unit}
    (asked : Depot.checkout branch revision target depot = (result, after)) : after.KeepsHeads := by
  cases result with
  | error fault => exact keeps.counted (checkout_eq_error asked).1
  | ok made =>
      obtain ⟨_, _, _, commit, _, _, kept, rfl⟩ := checkout_eq_ok_iff.mp asked
      have head : depot.Keeps (WorkingTree.mk branch revision commit.files).head :=
        keeps_of_stored kept
      exact keeps.move target.parts head

theorem KeepsHeads.merge (keeps : depot.KeepsHeads) {path : Path} {branch revision message : String}
    {result : Except Fault MergeOutcome}
    (asked : Depot.merge path branch revision message depot = (result, after)) :
    after.KeepsHeads := by
  cases result with
  | error fault => exact keeps.counted (merge_eq_error asked).1
  | ok outcome =>
      obtain ⟨_, tree, theirs, _, _, ⟨_, _, rfl⟩ | ⟨_, _, base, head, _, _, _, rfl⟩⟩ :=
        merge_eq_ok_iff.mp asked
      · exact keeps
      · exact (keeps.put (mergeId (depot.merges + 1)) _).move path.parts keeps_put_self

end

theorem Reached.keepsHeads {Allows : String → Prop} {depot : Depot}
    (reached : Reached Allows depot) : depot.KeepsHeads := by
  induction reached with
  | empty =>
      intro place tree impossible
      cases impossible
  | commit _ branch _ time changes keeps => exact (keeps.put _ _).congr rfl rfl
  | branchFrom _ branch source keeps => exact keeps.congr rfl rfl
  | setTag _ branch tag revision keeps => exact keeps.congr rfl rfl
  | failTimes _ branch times keeps => exact keeps.congr rfl rfl
  | lookup _ branch specifier keeps => exact keeps.counted (lookup_onlyCounted branch specifier _)
  | checkout _ branch revision target keeps => exact keeps.checkout rfl
  | merge _ path branch revision message keeps => exact keeps.merge rfl

/-! ## Ids of merges -/

theorem mergeId_inj {number other : Nat} : mergeId number = mergeId other ↔ number = other := by
  constructor
  · intro same
    have digits := (String.append_right_inj _).mp same
    exact Text.numeral_inj.mp (congrArg String.toList digits)
  · rintro rfl
    rfl

/-- An id that begins otherwise is not that of a merge. -/
theorem ne_mergeId {id : String} (otherwise : id.toList.head? ≠ some 'm') (number : Nat) :
    id ≠ mergeId number := by
  rintro rfl
  refine otherwise ?_
  rw [mergeId, String.toList_append]
  rfl

/-- Whether the ids of all merges to come are free. -/
def SparesMerges (depot : Depot) : Prop :=
  ∀ number, depot.merges < number → ¬ depot.Keeps (mergeId number)

theorem SparesMerges.ne_mergeId {depot : Depot} (spares : depot.SparesMerges) {revision : String}
    (kept : depot.Keeps revision) {number : Nat} (new : depot.merges < number) :
    revision ≠ mergeId number := by
  rintro rfl
  exact spares number new kept

theorem SparesMerges.counted {depot after : Depot} (spares : depot.SparesMerges)
    (counted : depot.OnlyCounted after) : after.SparesMerges := by
  intro number later
  rw [Keeps, counted.history]
  exact spares number (Nat.lt_of_le_of_lt counted.merges later)

theorem SparesMerges.put {depot : Depot} (spares : depot.SparesMerges) {id : String}
    {added : Commit} (other : ∀ number, depot.merges < number → id ≠ mergeId number) :
    SparesMerges { depot with history := depot.history.put id added } := by
  intro number later kept
  rw [Keeps, Dict.get?_put, if_neg (other number later)] at kept
  exact spares number later kept

theorem SparesMerges.checkout {depot after : Depot} (spares : depot.SparesMerges)
    {branch revision : String} {target : Path} {result : Except Fault Unit}
    (asked : Depot.checkout branch revision target depot = (result, after)) :
    after.SparesMerges := by
  cases result with
  | error fault => exact spares.counted (checkout_eq_error asked).1
  | ok made =>
      obtain ⟨_, _, _, _, _, _, _, rfl⟩ := checkout_eq_ok_iff.mp asked
      exact spares

/-- A merge takes the first id that was spared. -/
theorem SparesMerges.merge {depot after : Depot} (spares : depot.SparesMerges) {path : Path}
    {branch revision message : String} {result : Except Fault MergeOutcome}
    (asked : Depot.merge path branch revision message depot = (result, after)) :
    after.SparesMerges := by
  cases result with
  | error fault => exact spares.counted (merge_eq_error asked).1
  | ok outcome =>
      obtain ⟨_, tree, theirs, _, _, ⟨_, _, rfl⟩ | ⟨_, _, base, head, _, _, _, rfl⟩⟩ :=
        merge_eq_ok_iff.mp asked
      · exact spares
      · intro number later kept
        have taken : mergeId (depot.merges + 1) ≠ mergeId number := fun same =>
          Nat.ne_of_lt later (mergeId_inj.mp same)
        rw [Keeps, withMerge, Dict.get?_put, if_neg taken] at kept
        exact spares number (Nat.lt_of_succ_lt later) kept

/-- A merge leaves all commits as they are. -/
theorem SparesMerges.keptIn_withMerge {depot : Depot} (spares : depot.SparesMerges) (path : Path)
    (branch : String) (added : Commit) :
    depot.history.KeptIn (depot.withMerge path branch added).history := by
  intro revision commit kept
  have other := spares.ne_mergeId (keeps_of_get? kept) (Nat.lt_succ_self _)
  rw [withMerge, Dict.get?_put, if_neg (Ne.symm other)]
  exact kept

/-- The commit of a merge takes no parent from any revision. -/
theorem SparesMerges.parents_withMerge {depot : Depot} (spares : depot.SparesMerges) (path : Path)
    (branch : String) (added : Commit) (revision : String) :
    depot.history.parents revision ⊆
      (depot.withMerge path branch added).history.parents revision :=
  (spares.keptIn_withMerge path branch added).parents_subset revision

theorem Reached.sparesMerges {Allows : String → Prop} {depot : Depot}
    (allowed : ∀ id, Allows id → ∀ number, id ≠ mergeId number) (reached : Reached Allows depot) :
    depot.SparesMerges := by
  induction reached with
  | empty =>
      intro number _ impossible
      cases impossible
  | @commit depot _ branch revision allows time changes spares =>
      exact spares.put fun number _ => allowed revision allows number
  | branchFrom _ branch source spares => exact spares
  | setTag _ branch tag revision spares => exact spares
  | failTimes _ branch times spares => exact spares
  | lookup _ branch specifier spares => exact spares.counted (lookup_onlyCounted branch specifier _)
  | checkout _ branch revision target spares => exact spares.checkout rfl
  | merge _ path branch revision message spares => exact spares.merge rfl

end SourceRecipe.Depot
