import SourceRecipe.Proofs.Depot.Deeds

/-!
# Offshoots

A branch that was begun at the newest revision of another one and only committed to since leads back
to that revision along commits of its own, each with one parent.  Whatever else is done to the depot
meanwhile, the way back stays, and no two branches share a commit on it.
-/

namespace SourceRecipe

namespace History

/-- Whether a revision leads back to another one along single parents: some revisions, the newest
one first, each with the one behind it as its only parent. -/
inductive Trail (history : History) (root : String) : List String → String → Prop where
  | start : Trail history root [] root
  | next {ids : List String} {newest id : String} (trail : Trail history root ids newest)
      (above : history.parents id = [newest]) (new : id ∉ ids) : Trail history root (id :: ids) id

namespace Trail

variable {history later : History} {root newest ancestor : String} {ids : List String}

theorem mem_ancestors_iff (trail : history.Trail root ids newest) :
    ancestor ∈ history.ancestors newest ↔ ancestor ∈ ids ∨ ancestor ∈ history.ancestors root := by
  induction trail with
  | start => exact (or_iff_right List.not_mem_nil).symm
  | next trail above new ih =>
      rw [mem_ancestors_iff_parents, above, List.mem_cons, or_assoc, ← ih]
      simp only [List.mem_singleton, exists_eq_left]

theorem parents_ne_nil (trail : history.Trail root ids newest) :
    ∀ id ∈ ids, history.parents id ≠ [] := by
  induction trail with
  | start => exact List.forall_mem_nil _
  | next trail above new ih =>
      refine List.forall_mem_cons.mpr ⟨?_, ih⟩
      rw [above]
      exact List.cons_ne_nil _ _

theorem isSome (trail : history.Trail root ids newest) : ∀ id ∈ ids, (history.get? id).isSome :=
  fun id member => Dict.mem_keys_iff.mp (mem_keys_of_parents (trail.parents_ne_nil id member))

theorem newest_mem (trail : history.Trail root ids newest) : newest = root ∨ newest ∈ ids := by
  cases trail with
  | start => exact .inl rfl
  | next trail above new => exact .inr List.mem_cons_self

/-- A trail stays where commits are kept. -/
theorem mono (trail : history.Trail root ids newest) (kept : history.KeptIn later) :
    later.Trail root ids newest := by
  induction trail with
  | start => exact .start
  | next trail above new ih =>
      refine .next ih ?_ new
      have here := (Trail.next trail above new).isSome _ List.mem_cons_self
      rw [kept.parents_eq here, above]

/-- A walk that finds nothing on a trail finds the root of it. -/
theorem found (trail : history.Trail root ids newest) {wanted : String → Bool}
    (unwanted : ∀ id ∈ ids, wanted id = false) (sought : wanted root = true) {seen : List String}
    (unseen : ∀ id ∈ ids, id ∉ seen) : (history.walk wanted seen [newest]).found = some root := by
  induction trail generalizing seen with
  | start => rw [walk, if_pos sought]
  | @next ids newest id trail above new ih =>
      obtain ⟨passed, others⟩ := List.forall_mem_cons.mp unwanted
      obtain ⟨fresh, later⟩ := List.forall_mem_cons.mp unseen
      rw [walk, if_neg (by rw [passed]; exact Bool.false_ne_true), if_neg fresh, above,
        List.nil_append]
      refine ih others fun other member known => ?_
      rcases List.mem_cons.mp known with rfl | known
      · exact new member
      · exact later other member known

/-- The end of a trail and a descendant of its root that is not on it have started from the root. -/
theorem mergeBase?_eq (trail : history.Trail root ids newest) {ours : String}
    (outside : ∀ id ∈ ids, id ∉ history.ancestors ours) (within : root ∈ history.ancestors ours) :
    history.mergeBase? ours newest = some root := by
  rw [mergeBase?]
  exact trail.found (fun id member => decide_eq_false (outside id member)) (decide_eq_true within)
    fun _ _ => List.not_mem_nil

end Trail

end History

namespace Depot

def tip? (depot : Depot) (branch : String) : Option String :=
  (depot.revisions branch).getLast?

theorem exists_line_of_tip {depot : Depot} {branch revision : String}
    (newest : depot.tip? branch = some revision) :
    ∃ revisions, depot.line branch = .ok revisions ∧ revisions.getLast? = some revision := by
  rw [tip?, revisions] at newest
  rw [line]
  cases known : depot.branches.get? branch with
  | none =>
      rw [known] at newest
      cases newest
  | some revisions =>
      rw [known] at newest
      exact ⟨revisions, rfl, newest⟩

/-! ## Ancestors that are kept -/

section

variable {before depot after : Depot} {revision ancestor : String}

theorem IsWhole.keeps_of_mem_ancestors (whole : depot.IsWhole) (kept : depot.Keeps revision)
    (member : ancestor ∈ depot.history.ancestors revision) : depot.Keeps ancestor := by
  have descends := History.mem_ancestors_iff.mp member
  have asIs : depot.history.KeptIn depot.history := fun _ _ kept => kept
  exact ((asIs.descends_iff whole.parents kept).mp descends).2

/-- A revision gets no other ancestors where commits are kept. -/
theorem IsWhole.mem_ancestors_iff (whole : before.IsWhole)
    (history : before.history.KeptIn after.history) (kept : before.Keeps revision) :
    ancestor ∈ after.history.ancestors revision ↔ ancestor ∈ before.history.ancestors revision := by
  rw [History.mem_ancestors_iff, History.mem_ancestors_iff,
    history.descends_iff whole.parents kept]
  refine and_iff_left_of_imp fun descends => ?_
  exact whole.keeps_of_mem_ancestors kept (History.mem_ancestors_iff.mpr descends)

theorem IsWhole.keeps_tip (whole : depot.IsWhole) {branch : String}
    (newest : depot.tip? branch = some revision) : depot.Keeps revision :=
  whole.lines branch revision (List.mem_of_getLast? newest)

/-- A merge of a commit that stands on the head of a tree alone starts from that head. -/
theorem merge_of_child {path : Path} {branch message : String} {tree : WorkingTree}
    {head theirs : Commit} (reaches : depot.Reaches branch) (stands : depot.tree? path = some tree)
    (ours : depot.history.get? tree.head = some head)
    (kept : depot.history.get? revision = some theirs) (child : theirs.parents = [tree.head])
    (new : revision ∉ depot.history.ancestors tree.head)
    (agrees : Files.conflicts head.files tree.files theirs.files = []) :
    Depot.merge path branch revision message depot =
      (.ok .merged, depot.withMerge path tree.branch
        ⟨[tree.head, revision], head.time.later theirs.time, message,
          Files.merged head.files tree.files theirs.files⟩) := by
  have above : depot.history.parents revision = [tree.head] := by
    rw [History.parents, kept]
    exact child
  have trail : depot.history.Trail tree.head [revision] revision :=
    .next .start above List.not_mem_nil
  have common : depot.commonFiles tree.head revision = .ok head.files := by
    rw [commonFiles, trail.mergeBase?_eq (List.forall_mem_singleton.mpr new)
      (History.mem_ancestors_iff.mpr .refl)]
    simp only [stored_eq_ok_iff.mpr ours]
    rfl
  exact merge_eq_ok_iff.mpr ⟨reaches, tree, theirs, stands, stored_eq_ok_iff.mpr kept,
    .inr ⟨new, rfl, head.files, head, common, agrees, stored_eq_ok_iff.mpr ours, rfl⟩⟩

end

/-! ## One branch -/

/-- Whether a branch has grown out of a revision by commits of its own, the newest one first. -/
structure Offshoot (depot : Depot) (root branch newest : String) (ids : List String) : Prop where
  tip : depot.tip? branch = some newest
  trail : depot.history.Trail root ids newest
  outside : ∀ id ∈ ids, id ∉ depot.history.ancestors root

namespace Offshoot

variable {Allows : String → Prop} {depot after : Depot} {root branch newest : String}
  {ids : List String} {deed : Deed} {deeds : List Deed}

theorem keeps_root (offshoot : depot.Offshoot root branch newest ids) (whole : depot.IsWhole) :
    depot.Keeps root := by
  refine whole.keeps_of_mem_ancestors (whole.keeps_tip offshoot.tip) ?_
  exact offshoot.trail.mem_ancestors_iff.mpr (.inr (History.mem_ancestors_iff.mpr .refl))

theorem continues (offshoot : depot.Offshoot root branch newest ids) (whole : depot.IsWhole)
    (continues : depot.Continues after) (same : after.revisions branch = depot.revisions branch) :
    after.Offshoot root branch newest ids := by
  refine ⟨?_, offshoot.trail.mono continues.history, fun id member above => ?_⟩
  · rw [tip?, same]
    exact offshoot.tip
  · rw [whole.mem_ancestors_iff continues.history (offshoot.keeps_root whole)] at above
    exact offshoot.outside id member above

/-- A fresh commit makes an offshoot longer. -/
theorem commit (offshoot : depot.Offshoot root branch newest ids) (whole : depot.IsWhole)
    {id : String} (new : ¬ depot.Keeps id) (time : Time.Instant) (changes : List (String × String))
    (continues : depot.Continues (depot.commit branch id time changes)) :
    (depot.commit branch id time changes).Offshoot root branch id (id :: ids) := by
  have tip := offshoot.tip
  rw [tip?] at tip
  refine ⟨?_, .next (offshoot.trail.mono continues.history) ?_ ?_,
    List.forall_mem_cons.mpr ⟨?_, fun other member => ?_⟩⟩
  · rw [tip?, revisions, Depot.commit, Dict.get?_put_self]
    exact List.getLast?_concat
  · rw [Depot.commit, History.parents_put, if_pos rfl, tip]
    rfl
  · exact fun member => new (offshoot.trail.isSome id member)
  · rw [whole.mem_ancestors_iff continues.history (offshoot.keeps_root whole)]
    exact fun above => new (whole.keeps_of_mem_ancestors (offshoot.keeps_root whole) above)
  · rw [whole.mem_ancestors_iff continues.history (offshoot.keeps_root whole)]
    exact offshoot.outside other member

end Offshoot

/-! ## Runs -/

section

variable {Allows : String → Prop} {depot : Depot} {deed : Deed} {deeds : List Deed}
  {root branch newest : String} {ids : List String}

/-- An offshoot stays one after a deed that does not begin the branch anew, and grows by a commit to
it. -/
theorem Offshoot.perform (spared : ∀ id, Allows id → ∀ number, id ≠ mergeId number)
    (reached : Reached Allows depot) (fresh : deed.IsFresh Allows depot)
    (still : ∀ source, deed ≠ .branchFrom branch source)
    (offshoot : depot.Offshoot root branch newest ids) :
    ∃ newest ids', (depot.perform deed).Offshoot root branch newest ids' ∧
      ∀ id ∈ ids', id ∈ ids ∨ ∃ time changes, deed = .commit branch id time changes := by
  have effect := effect_perform depot deed
  have continues := effect.continues (reached.sparesMerges spared) fresh
  by_cases committed : ∃ id time changes, deed = .commit branch id time changes
  · obtain ⟨id, time, changes, rfl⟩ := committed
    refine ⟨id, _, offshoot.commit reached.isWhole fresh.2 time changes continues, ?_⟩
    exact List.forall_mem_cons.mpr ⟨.inr ⟨time, changes, rfl⟩, fun other member => .inl member⟩
  · have same := effect.revisions
      (fun id time changes named => committed ⟨id, time, changes, named⟩) still
    have still := offshoot.continues reached.isWhole continues same
    exact ⟨newest, ids, still, fun id member => .inl member⟩

theorem Offshoot.performAll (spared : ∀ id, Allows id → ∀ number, id ≠ mergeId number)
    (reached : Reached Allows depot) (fresh : AreFresh Allows depot deeds)
    (still : ∀ source, Deed.branchFrom branch source ∉ deeds)
    (offshoot : depot.Offshoot root branch newest ids) :
    ∃ newest ids', (depot.performAll deeds).Offshoot root branch newest ids' ∧
      ∀ id ∈ ids', id ∈ ids ∨ ∃ time changes, .commit branch id time changes ∈ deeds := by
  induction deeds generalizing depot newest ids with
  | nil => exact ⟨newest, ids, offshoot, fun id member => .inl member⟩
  | cons deed others ih =>
      have first (source : String) : deed ≠ .branchFrom branch source := by
        rintro rfl
        exact still source List.mem_cons_self
      obtain ⟨_, _, between, grown⟩ := offshoot.perform spared reached fresh.1 first
      obtain ⟨last, final, there, further⟩ := ih (reached.perform fresh.1) fresh.2
        (fun source member => still source (List.mem_cons_of_mem deed member)) between
      refine ⟨last, final, there, fun id member => ?_⟩
      rcases further id member with earlier | ⟨time, changes, listed⟩
      · refine (grown id earlier).imp_right ?_
        rintro ⟨time, changes, rfl⟩
        exact ⟨time, changes, List.mem_cons_self⟩
      · exact .inr ⟨time, changes, List.mem_cons_of_mem deed listed⟩

/-- Whether a branch was begun at a revision of another branch, which was its newest one then, and
was not begun anew after that. -/
def Sprouts (deeds : List Deed) (base root branch : String) : Prop :=
  ∃ before after, deeds = before ++ .branchFrom branch base :: after ∧
    (Depot.empty.performAll before).tip? base = some root ∧
    ∀ source, Deed.branchFrom branch source ∉ after

/-- A branch that sprouts is an offshoot, by the commits made to it. -/
theorem Sprouts.offshoot {base : String} (sprouts : Sprouts deeds base root branch)
    (spared : ∀ id, Allows id → ∀ number, id ≠ mergeId number)
    (fresh : AreFresh Allows .empty deeds) :
    ∃ newest ids, (Depot.empty.performAll deeds).Offshoot root branch newest ids ∧
      ∀ id ∈ ids, ∃ time changes, .commit branch id time changes ∈ deeds := by
  obtain ⟨before, after, rfl, tip, still⟩ := sprouts
  obtain ⟨first, _, later⟩ := areFresh_append_iff.mp fresh
  have reached := Reached.performAll .empty first
  have begins : ((Depot.empty.performAll before).branchFrom branch base).Offshoot root branch root
      [] := by
    refine ⟨?_, .start, List.forall_mem_nil _⟩
    rw [tip?, revisions, Depot.branchFrom, Dict.get?_put_self]
    exact tip
  obtain ⟨newest, ids, offshoot, committed⟩ :=
    begins.performAll spared (reached.branchFrom branch base) later still
  rw [performAll_append]
  refine ⟨newest, ids, offshoot, fun id member => ?_⟩
  obtain ⟨time, changes, listed⟩ := (committed id member).resolve_left List.not_mem_nil
  exact ⟨time, changes, List.mem_append_right _ (List.mem_cons_of_mem _ listed)⟩

/-! ## Several branches -/

/-- A fresh commit brings an id that was not kept before any of the deeds. -/
theorem AreFresh.not_keeps (spared : ∀ id, Allows id → ∀ number, id ≠ mergeId number)
    (reached : Reached Allows depot) (fresh : AreFresh Allows depot deeds) {id : String}
    {time : Time.Instant} {changes : List (String × String)}
    (listed : .commit branch id time changes ∈ deeds) : Allows id ∧ ¬ depot.Keeps id := by
  induction deeds generalizing depot with
  | nil => cases listed
  | cons deed others ih =>
      rcases List.mem_cons.mp listed with rfl | listed
      · exact fresh.1
      · obtain ⟨allowed, new⟩ := ih (reached.perform fresh.1) fresh.2 listed
        have continues :=
          (effect_perform depot deed).continues (reached.sparesMerges spared) fresh.1
        refine ⟨allowed, fun kept => new ?_⟩
        obtain ⟨commit, found⟩ := Option.isSome_iff_exists.mp kept
        exact keeps_of_get? (continues.history id commit found)

/-- An id is committed to one branch only. -/
theorem AreFresh.branch_eq (spared : ∀ id, Allows id → ∀ number, id ≠ mergeId number)
    (reached : Reached Allows depot) (fresh : AreFresh Allows depot deeds) {other id : String}
    {time later : Time.Instant} {changes more : List (String × String)}
    (listed : .commit branch id time changes ∈ deeds)
    (likewise : .commit other id later more ∈ deeds) : branch = other := by
  induction deeds generalizing depot with
  | nil => cases listed
  | cons deed others ih =>
      have taken {branch : String} {time : Time.Instant} {changes : List (String × String)}
          (first : deed = .commit branch id time changes) : (depot.perform deed).Keeps id := by
        rw [first]
        exact keeps_put_self
      have rest := reached.perform fresh.1
      rcases List.mem_cons.mp listed with first | listed
      · rcases List.mem_cons.mp likewise with same | likewise
        · cases first.trans same.symm
          rfl
        · exact absurd (taken first.symm) (fresh.2.not_keeps spared rest likewise).2
      · rcases List.mem_cons.mp likewise with second | likewise
        · exact absurd (taken second.symm) (fresh.2.not_keeps spared rest listed).2
        · exact ih rest fresh.2 listed likewise

end

end Depot

end SourceRecipe
