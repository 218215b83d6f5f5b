import Mathlib.Logic.Basic
import SourceRecipe.Depot.Backend
import SourceRecipe.Recipe.Basic
import SourceRecipe.Proofs.Sequence

/-!
# What the requests to a depot do

Each request that succeeds is told by what it asked of the depot and by the depot it leaves: a
look-up counts itself, a checkout makes a tree, and a merge adds one commit or nothing.
-/

namespace SourceRecipe.Depot

theorem ofExcept_eq_ok_iff {α : Type} {known : Except Fault α} {depot after : Depot} {answer : α} :
    Request.ofExcept known depot = (.ok answer, after) ↔ known = .ok answer ∧ depot = after := by
  rw [Request.ofExcept, Prod.mk.injEq]

theorem ofExcept_eq_error_iff {α : Type} {known : Except Fault α} {depot after : Depot}
    {fault : Fault} :
    Request.ofExcept known depot = (.error fault, after) ↔ known = .error fault ∧ depot = after := by
  rw [Request.ofExcept, Prod.mk.injEq]

/-- Whether a branch can be reached: no call on it is still to fail. -/
def Reaches (depot : Depot) (branch : String) : Prop :=
  ∀ left ∈ depot.failures.get? branch, left = 0

theorem reach_eq_ok_iff {branch : String} {depot after : Depot} {answer : Unit} :
    reach branch depot = (.ok answer, after) ↔ depot.Reaches branch ∧ depot = after := by
  rw [reach, run_bind_eq_ok_iff, Reaches]
  simp only [run_get_eq_ok_iff]
  constructor
  · rintro ⟨_, _, ⟨rfl, rfl⟩, passed⟩
    cases pending : depot.failures.get? branch with
    | none =>
        rw [pending] at passed
        cases passed
        exact ⟨fun _ impossible => (by cases impossible), rfl⟩
    | some left =>
        rw [pending] at passed
        cases left with
        | zero =>
            cases passed
            exact ⟨fun _ same => (by cases same; rfl), rfl⟩
        | succ left => cases passed
  · rintro ⟨reaches, rfl⟩
    refine ⟨_, _, ⟨rfl, rfl⟩, ?_⟩
    cases pending : depot.failures.get? branch with
    | none => rfl
    | some left =>
        cases reaches left pending
        rfl

/-- Whether a depot came from another one by counting alone: calls that failed, look-ups, and merges
that were begun. -/
structure OnlyCounted (before after : Depot) : Prop where
  history : after.history = before.history
  branches : after.branches = before.branches
  tags : after.tags = before.tags
  trees : after.trees = before.trees
  merges : before.merges ≤ after.merges

theorem OnlyCounted.refl (depot : Depot) : OnlyCounted depot depot :=
  ⟨rfl, rfl, rfl, rfl, Nat.le_refl _⟩

/-- A branch that cannot be reached looks like one behind a network that fails, and has one failure
less to come. -/
theorem reach_eq_error_iff {branch : String} {depot after : Depot} {fault : Fault} :
    reach branch depot = (.error fault, after) ↔
      ∃ left, depot.failures.get? branch = some (left + 1) ∧
        fault = .network s!"simulated failure reaching {branch}" ∧
        after = { depot with failures := depot.failures.put branch left } := by
  rw [reach, run_bind_eq_error_iff]
  simp only [run_get_eq_error_iff, run_get_eq_ok_iff, false_or]
  constructor
  · rintro ⟨_, _, ⟨rfl, rfl⟩, rest⟩
    cases pending : depot.failures.get? branch with
    | none =>
        rw [pending] at rest
        cases rest
    | some left =>
        rw [pending] at rest
        cases left with
        | zero => cases rest
        | succ left =>
            cases rest
            exact ⟨left, rfl, rfl, rfl⟩
  · rintro ⟨left, pending, rfl, rfl⟩
    refine ⟨_, _, ⟨rfl, rfl⟩, ?_⟩
    rw [pending]
    rfl

theorem reach_eq_error {branch : String} {depot after : Depot} {fault : Fault}
    (failed : reach branch depot = (.error fault, after)) :
    depot.OnlyCounted after ∧ ∃ message, fault = .network message := by
  obtain ⟨left, _, rfl, rfl⟩ := reach_eq_error_iff.mp failed
  exact ⟨⟨rfl, rfl, rfl, rfl, Nat.le_refl _⟩, _, rfl⟩

/-- A tree is made where there is none, of a kept revision in the branch. -/
theorem checkout_eq_ok_iff {branch revision : String} {target : Path} {depot after : Depot}
    {answer : Unit} :
    checkout branch revision target depot = (.ok answer, after) ↔
      depot.Reaches branch ∧ depot.tree? target = none ∧
        ∃ revisions commit, depot.line branch = .ok revisions ∧ revision ∈ revisions ∧
          depot.stored revision = .ok commit ∧
          after = { depot with
            trees := depot.trees.put target.parts ⟨branch, revision, commit.files⟩ } := by
  rw [checkout]
  simp only [run_bind_eq_ok_iff, run_get_eq_ok_iff, reach_eq_ok_iff, ofExcept_eq_ok_iff,
    run_guard_eq_ok_iff, run_set_eq_ok_iff, Bool.not_eq_true, Option.isSome_eq_false_iff,
    Option.isNone_iff_eq_none, Decidable.not_not]
  constructor
  · rintro ⟨_, _, ⟨reaches, rfl⟩, _, _, ⟨rfl, rfl⟩, free, revisions, _, ⟨line, rfl⟩, member, commit,
      _, ⟨stored, rfl⟩, rfl⟩
    exact ⟨reaches, free, revisions, commit, line, member, stored, rfl⟩
  · rintro ⟨reaches, free, revisions, commit, line, member, stored, rfl⟩
    exact ⟨(), _, ⟨reaches, rfl⟩, _, _, ⟨rfl, rfl⟩, free, revisions, _, ⟨line, rfl⟩, member, commit,
      _, ⟨stored, rfl⟩, rfl⟩

theorem line_eq_error {depot : Depot} {branch : String} {fault : Fault}
    (missing : depot.line branch = .error fault) : fault = .branchNotFound branch := by
  rw [line] at missing
  cases known : depot.branches.get? branch with
  | none =>
      rw [known] at missing
      cases missing
      rfl
  | some revisions =>
      rw [known] at missing
      cases missing

/-- A checkout fails at a branch that cannot be reached, or changes nothing: there is a tree already,
or no branch, or the branch does not have the revision, or the revision is not kept. -/
theorem checkout_stops {branch revision : String} {target : Path} {depot after : Depot}
    {fault : Fault} (failed : checkout branch revision target depot = (.error fault, after)) :
    reach branch depot = (.error fault, after) ∨ after = depot ∧
      ((depot.tree? target).isSome ∧ fault = .other s!"{target.text} already has a working tree" ∨
        fault = .branchNotFound branch ∨
        (∃ sought, fault = .revisionNotFound branch sought) ∨
        ∃ revisions, depot.line branch = .ok revisions ∧ revision ∈ revisions ∧
          depot.stored revision = .error fault) := by
  rw [checkout] at failed
  simp only [run_bind_eq_error_iff, run_get_eq_error_iff, run_get_eq_ok_iff, reach_eq_ok_iff,
    ofExcept_eq_error_iff, ofExcept_eq_ok_iff, run_guard_eq_error_iff, run_set_eq_error_iff,
    and_false, exists_false, or_false, false_or] at failed
  rcases failed with unreached | ⟨_, _, ⟨_, rfl⟩, _, _, ⟨rfl, rfl⟩, rest⟩
  · exact .inl unreached
  · rcases rest with ⟨taken, rfl, rfl⟩ | ⟨_, rest⟩
    · exact .inr ⟨rfl, .inl ⟨taken, rfl⟩⟩
    · rcases rest with ⟨missing, rfl⟩ | ⟨revisions, _, ⟨line, rfl⟩, rest⟩
      · exact .inr ⟨rfl, .inr (.inl (line_eq_error missing))⟩
      · rcases rest with ⟨_, rfl, rfl⟩ | ⟨member, unkept, rfl⟩
        · exact .inr ⟨rfl, .inr (.inr (.inl ⟨_, rfl⟩))⟩
        · exact .inr ⟨rfl, .inr (.inr (.inr
            ⟨revisions, line, Decidable.not_not.mp member, unkept⟩))⟩

/-- What a checkout fails with, and where it fails because of a tree or of a commit. -/
theorem checkout_eq_error {branch revision : String} {target : Path} {depot after : Depot}
    {fault : Fault} (failed : checkout branch revision target depot = (.error fault, after)) :
    depot.OnlyCounted after ∧
      ((∃ message, fault = .network message) ∨
        (depot.tree? target).isSome ∧ fault = .other s!"{target.text} already has a working tree" ∨
        fault = .branchNotFound branch ∨
        (∃ sought, fault = .revisionNotFound branch sought) ∨
        ∃ revisions, depot.line branch = .ok revisions ∧ revision ∈ revisions ∧
          depot.stored revision = .error fault) := by
  rcases checkout_stops failed with unreached | ⟨rfl, cause⟩
  · obtain ⟨counted, network⟩ := reach_eq_error unreached
    exact ⟨counted, .inl network⟩
  · exact ⟨.refl _, .inr cause⟩

theorem stored_eq_error {depot : Depot} {revision : String} {fault : Fault}
    (unkept : depot.stored revision = .error fault) :
    depot.history.get? revision = none ∧ fault = .other s!"unknown revision {revision}" := by
  rw [stored] at unkept
  cases known : depot.history.get? revision with
  | none =>
      rw [known] at unkept
      cases unkept
      exact ⟨rfl, rfl⟩
  | some commit =>
      rw [known] at unkept
      cases unkept

/-- The files that the common ancestor of two revisions has, if it is kept. -/
def commonFiles (depot : Depot) (ours theirs : String) : Except Fault Files :=
  match depot.history.mergeBase? ours theirs with
  | none => .ok .empty
  | some common => (depot.stored common).map Commit.files

theorem baseFiles_eq (depot : Depot) (ours theirs : String) :
    depot.baseFiles ours theirs = Request.ofExcept (depot.commonFiles ours theirs) := by
  rw [baseFiles, commonFiles]
  cases depot.history.mergeBase? ours theirs with
  | none => rfl
  | some common => rfl

theorem commonFiles_eq_error {depot : Depot} {ours theirs : String} {fault : Fault}
    (missing : depot.commonFiles ours theirs = .error fault) :
    ∃ unkept : String, fault = .other s!"unknown revision {unkept}" := by
  rw [commonFiles] at missing
  cases common : depot.history.mergeBase? ours theirs with
  | none =>
      rw [common] at missing
      cases missing
  | some revision =>
      simp only [common] at missing
      cases kept : depot.stored revision with
      | ok commit =>
          rw [kept] at missing
          cases missing
      | error other =>
          rw [kept] at missing
          cases missing
          exact ⟨revision, (stored_eq_error kept).2⟩

def withMerge (depot : Depot) (path : Path) (branch : String) (commit : Commit) : Depot :=
  { depot with
    merges := depot.merges + 1
    history := depot.history.put (mergeId (depot.merges + 1)) commit
    trees := depot.trees.put path.parts ⟨branch, mergeId (depot.merges + 1), commit.files⟩ }

/-- The commit of a merge stands on the head of the tree and on the revision merged. -/
theorem commitMerge_eq_ok_iff {path : Path} {tree : WorkingTree} {revision message : String}
    {files : Files} {depot after : Depot} {answer : Unit} :
    commitMerge path tree revision message files depot = (.ok answer, after) ↔
      ∃ head theirs, depot.stored tree.head = .ok head ∧ depot.stored revision = .ok theirs ∧
        after = depot.withMerge path tree.branch
          ⟨[tree.head, revision], head.time.later theirs.time, message, files⟩ := by
  rw [commitMerge]
  simp only [run_bind_eq_ok_iff, run_get_eq_ok_iff, run_modify_eq_ok_iff, ofExcept_eq_ok_iff,
    run_set_eq_ok_iff]
  constructor
  · rintro ⟨_, _, rfl, _, _, ⟨rfl, rfl⟩, head, _, ⟨ours, rfl⟩, theirs, _, ⟨other, rfl⟩, rfl⟩
    exact ⟨head, theirs, ours, other, rfl⟩
  · rintro ⟨head, theirs, ours, other, rfl⟩
    exact ⟨(), _, rfl, _, _, ⟨rfl, rfl⟩, head, _, ⟨ours, rfl⟩, theirs, _, ⟨other, rfl⟩, rfl⟩

theorem commitMerge_eq_error {path : Path} {tree : WorkingTree} {revision message : String}
    {files : Files} {depot after : Depot} {fault : Fault}
    (failed : commitMerge path tree revision message files depot = (.error fault, after)) :
    depot.OnlyCounted after ∧
      ∃ unkept : String, fault = .other s!"unknown revision {unkept}" := by
  rw [commitMerge] at failed
  simp only [run_bind_eq_error_iff, run_modify_eq_error_iff, run_modify_eq_ok_iff,
    run_get_eq_error_iff, run_get_eq_ok_iff, run_set_eq_error_iff, ofExcept_eq_error_iff,
    ofExcept_eq_ok_iff, false_or, and_false, exists_false, or_false] at failed
  obtain ⟨_, _, rfl, _, _, ⟨rfl, rfl⟩, ⟨unkept, rfl⟩ | ⟨_, _, ⟨_, rfl⟩, unkept, rfl⟩⟩ := failed
  · exact ⟨⟨rfl, rfl, rfl, rfl, Nat.le_succ _⟩, _, (stored_eq_error unkept).2⟩
  · exact ⟨⟨rfl, rfl, rfl, rfl, Nat.le_succ _⟩, _, (stored_eq_error unkept).2⟩

/-- A merge of what is in the history of the tree already changes nothing; any other one adds a
commit of its own and moves the tree to it. -/
theorem merge_eq_ok_iff {path : Path} {branch revision message : String} {depot after : Depot}
    {outcome : MergeOutcome} :
    merge path branch revision message depot = (.ok outcome, after) ↔
      depot.Reaches branch ∧ ∃ tree theirs, depot.tree? path = some tree ∧
        depot.stored revision = .ok theirs ∧
        (revision ∈ depot.history.ancestors tree.head ∧ outcome = .upToDate ∧ after = depot ∨
          revision ∉ depot.history.ancestors tree.head ∧ outcome = .merged ∧ ∃ base head,
            depot.commonFiles tree.head revision = .ok base ∧
            Files.conflicts base tree.files theirs.files = [] ∧
            depot.stored tree.head = .ok head ∧
            after = depot.withMerge path tree.branch
              ⟨[tree.head, revision], head.time.later theirs.time, message,
                Files.merged base tree.files theirs.files⟩) := by
  rw [merge]
  simp only [run_bind_eq_ok_iff, run_get_eq_ok_iff, reach_eq_ok_iff]
  constructor
  · rintro ⟨_, _, ⟨reaches, rfl⟩, _, _, ⟨rfl, rfl⟩, rest⟩
    refine ⟨reaches, ?_⟩
    cases found : depot.tree? path with
    | none =>
        rw [found] at rest
        cases rest
    | some tree =>
        simp only [found, run_bind_eq_ok_iff, ofExcept_eq_ok_iff] at rest
        obtain ⟨theirs, _, ⟨kept, rfl⟩, rest⟩ := rest
        refine ⟨tree, theirs, rfl, kept, ?_⟩
        by_cases known : revision ∈ depot.history.ancestors tree.head
        · rw [if_pos known] at rest
          obtain ⟨rfl, rfl⟩ := run_pure_eq_ok_iff.mp rest
          exact .inl ⟨known, rfl, rfl⟩
        · rw [if_neg known, baseFiles_eq] at rest
          simp only [run_bind_eq_ok_iff, run_guard_eq_ok_iff, run_pure_eq_ok_iff,
            ofExcept_eq_ok_iff, commitMerge_eq_ok_iff, Bool.not_eq_true', Bool.not_eq_false,
            List.isEmpty_iff] at rest
          obtain ⟨base, _, ⟨common, rfl⟩, agrees, _, _, ⟨head, _, ours, same, rfl⟩, rfl, rfl⟩ := rest
          cases kept.symm.trans same
          exact .inr ⟨known, rfl, base, head, common, agrees, ours, rfl⟩
  · rintro ⟨reaches, tree, theirs, found, kept, rest⟩
    refine ⟨(), _, ⟨reaches, rfl⟩, _, _, ⟨rfl, rfl⟩, ?_⟩
    simp only [found, run_bind_eq_ok_iff, ofExcept_eq_ok_iff]
    refine ⟨theirs, depot, ⟨kept, rfl⟩, ?_⟩
    rcases rest with ⟨known, rfl, rfl⟩ | ⟨unknown, rfl, base, head, common, agrees, ours, rfl⟩
    · rw [if_pos known]
      exact run_pure_eq_ok_iff.mpr ⟨rfl, rfl⟩
    · rw [if_neg unknown, baseFiles_eq]
      simp only [run_bind_eq_ok_iff, run_guard_eq_ok_iff, run_pure_eq_ok_iff, ofExcept_eq_ok_iff,
        commitMerge_eq_ok_iff, Bool.not_eq_true', Bool.not_eq_false, List.isEmpty_iff]
      exact ⟨base, depot, ⟨common, rfl⟩, agrees, (), _, ⟨head, theirs, ours, kept, rfl⟩, trivial, rfl⟩

/-- A merge of files in conflict names the paths and changes nothing. -/
theorem merge_of_conflicts {path : Path} {branch revision message : String} {depot : Depot}
    (reaches : depot.Reaches branch) {tree : WorkingTree} {theirs : Commit} {base : Files}
    (found : depot.tree? path = some tree) (kept : depot.stored revision = .ok theirs)
    (unknown : revision ∉ depot.history.ancestors tree.head)
    (common : depot.commonFiles tree.head revision = .ok base)
    (differ : Files.conflicts base tree.files theirs.files ≠ []) :
    merge path branch revision message depot =
      (.error (.conflict branch ((Files.conflicts base tree.files theirs.files).map Path.mk)),
        depot) := by
  rw [merge]
  simp only [run_bind_eq_error_iff, run_get_eq_error_iff, run_get_eq_ok_iff, reach_eq_ok_iff,
    false_or]
  refine .inr ⟨(), depot, ⟨reaches, rfl⟩, depot, depot, ⟨rfl, rfl⟩, ?_⟩
  simp only [found, run_bind_eq_error_iff, ofExcept_eq_error_iff, ofExcept_eq_ok_iff]
  refine .inr ⟨theirs, depot, ⟨kept, rfl⟩, ?_⟩
  rw [if_neg unknown, baseFiles_eq]
  simp only [run_bind_eq_error_iff, run_guard_eq_error_iff, ofExcept_eq_ok_iff, Bool.not_eq_true',
    List.isEmpty_eq_false_iff]
  exact .inr ⟨base, depot, ⟨common, rfl⟩, .inl ⟨differ, rfl, rfl⟩⟩

/-- A merge fails at a branch that cannot be reached, or changes nothing, for want of a tree or of a
commit or because of conflicts, or it fails when it is to be committed. -/
theorem merge_stops {path : Path} {branch revision message : String} {depot after : Depot}
    {fault : Fault} (failed : merge path branch revision message depot = (.error fault, after)) :
    reach branch depot = (.error fault, after) ∨
      after = depot ∧
        (depot.tree? path = none ∧ fault = .noWorkingTree path ∨
          (∃ paths, fault = .conflict branch paths) ∨
          ∃ unkept : String, fault = .other s!"unknown revision {unkept}") ∨
      ∃ tree theirs files, depot.tree? path = some tree ∧ depot.stored revision = .ok theirs ∧
        commitMerge path tree revision message files depot = (.error fault, after) := by
  rw [merge] at failed
  simp only [run_bind_eq_error_iff, run_get_eq_error_iff, run_get_eq_ok_iff, reach_eq_ok_iff,
    false_or] at failed
  rcases failed with unreached | ⟨_, _, ⟨_, rfl⟩, _, _, ⟨rfl, rfl⟩, rest⟩
  · exact .inl unreached
  · cases found : depot.tree? path with
    | none =>
        rw [found] at rest
        cases rest
        exact .inr (.inl ⟨rfl, .inl ⟨rfl, rfl⟩⟩)
    | some tree =>
        simp only [found, run_bind_eq_error_iff, ofExcept_eq_error_iff, ofExcept_eq_ok_iff] at rest
        rcases rest with ⟨unkept, rfl⟩ | ⟨theirs, _, ⟨kept, rfl⟩, rest⟩
        · exact .inr (.inl ⟨rfl, .inr (.inr ⟨_, (stored_eq_error unkept).2⟩)⟩)
        · by_cases known : revision ∈ depot.history.ancestors tree.head
          · rw [if_pos known] at rest
            cases rest
          · rw [if_neg known, baseFiles_eq] at rest
            simp only [run_bind_eq_error_iff, run_guard_eq_error_iff, run_pure_eq_error_iff,
              ofExcept_eq_error_iff, ofExcept_eq_ok_iff, and_false, exists_false, or_false] at rest
            rcases rest with ⟨uncommon, rfl⟩ | ⟨base, _, ⟨_, rfl⟩, rest⟩
            · exact .inr (.inl ⟨rfl, .inr (.inr (commonFiles_eq_error uncommon))⟩)
            · rcases rest with ⟨_, rfl, rfl⟩ | ⟨_, uncommitted⟩
              · exact .inr (.inl ⟨rfl, .inr (.inl ⟨_, rfl⟩)⟩)
              · exact .inr (.inr ⟨tree, theirs, _, rfl, kept, uncommitted⟩)

/-- What a merge fails with, and where it fails because of a tree. -/
theorem merge_eq_error {path : Path} {branch revision message : String} {depot after : Depot}
    {fault : Fault} (failed : merge path branch revision message depot = (.error fault, after)) :
    depot.OnlyCounted after ∧
      ((∃ message, fault = .network message) ∨
        depot.tree? path = none ∧ fault = .noWorkingTree path ∨
        (∃ paths, fault = .conflict branch paths) ∨
        ∃ unkept : String, fault = .other s!"unknown revision {unkept}") := by
  rcases merge_stops failed with unreached | ⟨rfl, cause⟩ | ⟨tree, theirs, files, _, _, uncommitted⟩
  · obtain ⟨counted, network⟩ := reach_eq_error unreached
    exact ⟨counted, .inl network⟩
  · exact ⟨.refl _, .inr cause⟩
  · obtain ⟨counted, unkept⟩ := commitMerge_eq_error uncommitted
    exact ⟨counted, .inr (.inr (.inr unkept))⟩

theorem revno_eq_ok {branch revision : String} {depot after : Depot} {number : Option Nat}
    (counted : revno branch revision depot = (.ok number, after)) : after = depot := by
  rw [revno] at counted
  simp only [run_bind_eq_ok_iff, run_get_eq_ok_iff, ofExcept_eq_ok_iff,
    run_pure_eq_ok_iff] at counted
  obtain ⟨_, _, ⟨rfl, rfl⟩, _, _, ⟨_, rfl⟩, _, rfl⟩ := counted
  rfl

/-! ## Look-ups -/

/-- The count of look-ups does not matter for what is found. -/
theorem newestUpTo_lookups (depot : Depot) (count : Nat) (limit : Time.Instant)
    (best : Option (String × Time.Instant)) (revisions : List String) :
    newestUpTo { depot with lookups := count } limit best revisions =
      depot.newestUpTo limit best revisions := by
  induction revisions generalizing best with
  | nil => rfl
  | cons revision others ih =>
      rw [newestUpTo, newestUpTo]
      simp only [ih]
      rfl

theorem find_lookups (depot : Depot) (count : Nat) (branch : String) (revisions : List String)
    (specifier : Specifier) :
    find { depot with lookups := count } branch revisions specifier =
      depot.find branch revisions specifier := by
  cases specifier with
  | tip | revision | tag => rfl
  | date limit => rw [find, find, newestUpTo_lookups]

theorem mem_of_newestUpTo {depot : Depot} {limit : Time.Instant}
    {best found : Option (String × Time.Instant)} {revisions : List String}
    (sought : depot.newestUpTo limit best revisions = .ok found) :
    found = best ∨ ∀ newest ∈ found, newest.1 ∈ revisions := by
  induction revisions generalizing best with
  | nil =>
      cases sought
      exact .inl rfl
  | cons revision others ih =>
      rw [newestUpTo, bind_eq_ok_iff] at sought
      obtain ⟨commit, _, sought⟩ := sought
      obtain ⟨next, either, sought⟩ : ∃ next, (next = some (revision, commit.time) ∨ next = best) ∧
          depot.newestUpTo limit next others = .ok found := ⟨_, ite_eq_or_eq _ _ _, sought⟩
      rcases ih sought with rfl | later
      · refine either.symm.imp_right fun first newest chosen => ?_
        rw [first] at chosen
        cases chosen
        exact List.mem_cons_self
      · exact .inr fun newest chosen => List.mem_cons_of_mem revision (later newest chosen)

/-- What a specifier means is in the branch, unless it is a tag that points elsewhere. -/
theorem mem_of_find {depot : Depot} {branch revision : String} {revisions : List String}
    {specifier : Specifier}
    (found : depot.find branch revisions specifier = .ok (some revision)) :
    revision ∈ revisions ∨
      ∃ name, specifier = .tag name ∧ depot.tags.get? (branch, name) = some revision := by
  cases specifier with
  | tip => exact .inl (List.mem_of_getLast? (Except.ok.inj found))
  | revision id =>
      rw [find, Except.ok.injEq] at found
      split at found
      · rename_i member
        cases found
        exact .inl member
      · cases found
  | tag name => exact .inr ⟨name, rfl, Except.ok.inj found⟩
  | date limit =>
      rw [find, bind_eq_ok_iff] at found
      obtain ⟨newest, sought, same⟩ := found
      cases newest with
      | none => cases same
      | some newest =>
          cases same
          rcases mem_of_newestUpTo sought with impossible | member
          · cases impossible
          · exact .inl (member newest rfl)

/-- A look-up that succeeds changes nothing but the count of look-ups. -/
theorem lookup_eq_ok_iff {branch : String} {specifier : Specifier} {depot after : Depot}
    {revision : String} :
    lookup branch specifier depot = (.ok revision, after) ↔
      depot.Reaches branch ∧ ∃ revisions, depot.line branch = .ok revisions ∧
        depot.find branch revisions specifier = .ok (some revision) ∧
        after = { depot with lookups := depot.lookups + 1 } := by
  rw [lookup]
  simp only [run_bind_eq_ok_iff, run_get_eq_ok_iff, ofExcept_eq_ok_iff, run_modify_eq_ok_iff,
    reach_eq_ok_iff]
  constructor
  · rintro ⟨_, _, rfl, _, _, ⟨reaches, rfl⟩, _, _, ⟨rfl, rfl⟩, revisions, _, ⟨line, rfl⟩, found, _,
      ⟨sought, rfl⟩, rest⟩
    rw [find_lookups] at sought
    cases found with
    | none => cases rest
    | some other =>
        obtain ⟨rfl, rfl⟩ := run_pure_eq_ok_iff.mp rest
        exact ⟨reaches, revisions, line, sought, rfl⟩
  · rintro ⟨reaches, revisions, line, sought, rfl⟩
    rw [← find_lookups depot (depot.lookups + 1)] at sought
    exact ⟨(), _, rfl, (), _, ⟨reaches, rfl⟩, _, _, ⟨rfl, rfl⟩, revisions, _, ⟨line, rfl⟩,
      some revision, _, ⟨sought, rfl⟩, rfl⟩

/-- A look-up only counts, whatever it answers. -/
theorem lookup_onlyCounted (branch : String) (specifier : Specifier) (depot : Depot) :
    depot.OnlyCounted (lookup branch specifier depot).2 := by
  cases asked : lookup branch specifier depot with
  | mk result after =>
      cases result with
      | ok revision =>
          obtain ⟨_, _, _, _, rfl⟩ := lookup_eq_ok_iff.mp asked
          exact ⟨rfl, rfl, rfl, rfl, Nat.le_refl _⟩
      | error fault =>
          rw [lookup] at asked
          simp only [run_bind_eq_error_iff, run_get_eq_error_iff, run_get_eq_ok_iff,
            ofExcept_eq_error_iff, ofExcept_eq_ok_iff, run_modify_eq_error_iff,
            run_modify_eq_ok_iff, reach_eq_ok_iff, false_or] at asked
          obtain ⟨_, _, rfl, unreached | ⟨_, _, ⟨_, rfl⟩, _, _, ⟨rfl, rfl⟩, rest⟩⟩ := asked
          · have counted := (reach_eq_error unreached).1
            exact ⟨counted.history, counted.branches, counted.tags, counted.trees, counted.merges⟩
          · have asIs : depot.OnlyCounted { depot with lookups := depot.lookups + 1 } :=
              ⟨rfl, rfl, rfl, rfl, Nat.le_refl _⟩
            rcases rest with ⟨_, rfl⟩ | ⟨_, _, ⟨_, rfl⟩, ⟨_, rfl⟩ | ⟨found, _, ⟨_, rfl⟩, rest⟩⟩
            · exact asIs
            · exact asIs
            · cases found with
              | none =>
                  cases rest
                  exact asIs
              | some revision => cases rest

def answer (depot : Depot) (source : Source) : Except Fault String :=
  (lookup source.location source.specifier depot).1

theorem answer_eq_ok_iff {depot : Depot} {source : Source} {revision : String} :
    depot.answer source = .ok revision ↔
      depot.Reaches source.location ∧ ∃ revisions, depot.line source.location = .ok revisions ∧
        depot.find source.location revisions source.specifier = .ok (some revision) := by
  constructor
  · intro answered
    obtain ⟨reaches, revisions, line, found, _⟩ := lookup_eq_ok_iff.mp
      (Prod.ext answered rfl : lookup source.location source.specifier depot = (.ok revision, _))
    exact ⟨reaches, revisions, line, found⟩
  · rintro ⟨reaches, revisions, line, found⟩
    rw [answer, lookup_eq_ok_iff.mpr ⟨reaches, revisions, line, found, rfl⟩]

theorem answer_lookups (depot : Depot) (count : Nat) {source : Source} {revision : String} :
    answer { depot with lookups := count } source = .ok revision ↔
      depot.answer source = .ok revision := by
  simp only [answer_eq_ok_iff, find_lookups]
  exact Iff.rfl

/-! ## Calls -/

/-- A call is given up when its token has fired; else it changes nothing but the depot. -/
theorem call_run {α : Type} (token : Token) (request : Request α) (world : World Depot) :
    request.call token world =
      if world.hasFired token then (.error .cancelled, world)
      else ((request world.store).1, { world with store := (request world.store).2 }) := by
  have seen : (get : Call Depot (World Depot)) world = (.ok world, world) := rfl
  rw [Request.call, run_bind, Call.check, run_bind, seen]
  dsimp only
  cases world.hasFired token with
  | true => rfl
  | false => rfl

theorem call_eq_ok_iff {α : Type} {token : Token} (request : Request α)
    {world after : World Depot} {answer : α} :
    request.call token world = (.ok answer, after) ↔
      world.hasFired token = false ∧
        ∃ depot, request world.store = (.ok answer, depot) ∧
          after = { world with store := depot } := by
  rw [call_run]
  cases world.hasFired token with
  | true =>
      constructor
      · intro impossible
        cases impossible
      · rintro ⟨impossible, _⟩
        cases impossible
  | false =>
      rw [if_neg Bool.false_ne_true]
      constructor
      · intro called
        obtain ⟨requested, rfl⟩ := Prod.ext_iff.mp called
        exact ⟨rfl, _, Prod.ext requested rfl, rfl⟩
      · rintro ⟨_, depot, requested, rfl⟩
        rw [requested]

/-- A call that fails was given up before it began, or its request failed. -/
theorem call_eq_error {α : Type} {token : Token} {request : Request α} {world after : World Depot}
    {fault : Fault} (failed : request.call token world = (.error fault, after)) :
    fault = .cancelled ∨ ∃ depot, request world.store = (.error fault, depot) := by
  rw [call_run] at failed
  split at failed
  · cases failed
    exact .inl rfl
  · exact .inr ⟨_, Prod.ext (Prod.ext_iff.mp failed).1 rfl⟩

/-- What is made of the answer of a call can be made of the answer of its request. -/
theorem call_map {α β : Type} {token : Token} (request : Request α) (f : α → β)
    (world : World Depot) :
    (request.call token >>= fun answer => pure (f answer)) world =
      Request.call token (request >>= fun answer => pure (f answer)) world := by
  rw [run_bind, call_run, call_run, run_bind]
  cases world.hasFired token with
  | true => rfl
  | false =>
      cases request world.store with
      | mk result depot =>
          cases result with
          | error fault => rfl
          | ok answer => rfl

end SourceRecipe.Depot
