import SourceRecipe.Build.Manifest
import SourceRecipe.Proofs.Build.Plan
import SourceRecipe.Proofs.Path

/-!
# Where the operations of a plan work

Every operation of a plan works on a tree at a path of names.  A checkout or a nest makes a tree
that no operation before it has made, and a merge goes into a tree that one of them has.
-/

namespace SourceRecipe

def Operation.Makes (operation : Operation) : Prop :=
  operation.action.kind ≠ .merge

instance (operation : Operation) : Decidable operation.Makes :=
  inferInstanceAs (Decidable (operation.action.kind ≠ .merge))

theorem Operation.not_makes_of_merge {operation : Operation} {nickname : String} {repeated : Bool}
    (merge : operation.action = .merge nickname repeated) : ¬ operation.Makes :=
  fun makes => makes (by rw [merge]; rfl)

theorem Operation.exists_merge_of_repeated {operation : Operation}
    (repeated : operation.isRepeatedMerge = true) :
    ∃ nickname, operation.action = .merge nickname true := by
  rw [isRepeatedMerge] at repeated
  split at repeated
  · rename_i nickname _ action
    cases repeated
    exact ⟨nickname, action⟩
  · cases repeated

def Operation.IsInside (operation : Operation) : Prop :=
  ∃ names, (∀ name ∈ names, Path.IsName name) ∧ operation.target = Path.ofNames names

theorem Operation.IsInside.target_eq {operation other : Operation} (inside : operation.IsInside)
    (otherInside : other.IsInside) (same : operation.target.parts = other.target.parts) :
    operation.target = other.target := by
  obtain ⟨names, areNames, target⟩ := inside
  obtain ⟨others, othersAre, otherTarget⟩ := otherInside
  rw [target, otherTarget, Path.parts_ofNames areNames, Path.parts_ofNames othersAre] at same
  rw [target, otherTarget, (List.map_inj_right fun _ _ => PathPart.name.inj).mp same]

namespace Plan

/-! ## Operations in turn -/

/-- Whether something holds of each operation in view of those before it, `done` being those before
all of them. -/
def InTurn (Holds : List Operation → Operation → Prop) (done : List Operation) :
    List Operation → Prop
  | [] => True
  | operation :: others => Holds done operation ∧ InTurn Holds (done ++ [operation]) others

/-- Whether one of some operations makes the tree at a place below the build root. -/
def IsMade (done : List Operation) (place : List PathPart) : Prop :=
  ∃ operation ∈ done, operation.Makes ∧ operation.target.parts = place

/-- Whether an operation makes a tree that none of those before it makes, or goes into one that they
make. -/
def Fits (done : List Operation) (operation : Operation) : Prop :=
  operation.Makes ↔ ¬ IsMade done operation.target.parts

section

variable {done front back : List Operation} {operation : Operation} {place : List PathPart}

theorem not_isMade_nil : ¬ IsMade [] place := by
  rintro ⟨_, impossible, _⟩
  cases impossible

theorem isMade_append : IsMade (front ++ back) place ↔ IsMade front place ∨ IsMade back place := by
  simp only [IsMade, List.mem_append, or_and_right, exists_or]

theorem isMade_concat :
    IsMade (done ++ [operation]) place ↔
      IsMade done place ∨ operation.Makes ∧ operation.target.parts = place := by
  rw [isMade_append]
  simp only [IsMade, List.mem_singleton, exists_eq_left]

variable {Holds : List Operation → Operation → Prop}

theorem inTurn_append :
    InTurn Holds done (front ++ back) ↔
      InTurn Holds done front ∧ InTurn Holds (done ++ front) back := by
  induction front generalizing done with
  | nil => rw [List.nil_append, List.append_nil, InTurn, true_and]
  | cons operation others ih =>
      rw [List.cons_append, InTurn, InTurn, ih, and_assoc, List.append_assoc, List.singleton_append]

theorem InTurn.at_middle (inTurn : InTurn Holds [] (done ++ operation :: back)) :
    Holds done operation :=
  (inTurn_append.mp inTurn).2.1

end

/-! ## Plans -/

theorem isName_of_mem_namesOf {parts : List PathPart} {names : List String}
    (spelled : namesOf parts = .ok names) : ∀ name ∈ names, PathPart.name name ∈ parts := by
  induction parts generalizing names with
  | nil =>
      cases spelled
      exact List.forall_mem_nil _
  | cons part others ih =>
      cases part with
      | root | up => cases spelled
      | here => exact fun name member => List.mem_cons_of_mem _ (ih spelled name member)
      | name text =>
          rw [namesOf] at spelled
          cases rest : namesOf others with
          | error flaw =>
              rw [rest] at spelled
              cases spelled
          | ok later =>
              rw [rest] at spelled
              cases spelled
              refine List.forall_mem_cons.mpr ⟨List.mem_cons_self, ?_⟩
              exact fun name member => List.mem_cons_of_mem _ (ih rest name member)

/-- A location that is allowed spells some names. -/
theorem locationNames_eq_ok {location : String} {names : List String}
    (spelled : locationNames location = .ok names) :
    names ≠ [] ∧ ∀ name ∈ names, Path.IsName name := by
  rw [locationNames] at spelled
  split at spelled
  · cases spelled
  · cases spelled
  · rename_i found some parts
    cases spelled
    exact ⟨some, fun name member =>
      Path.isName_of_mem_parts (isName_of_mem_namesOf parts name member)⟩

/-- Whether the nests known are those that have made a tree, besides the root tree. -/
def Knows (done : List Operation) (nests : Nests) : Prop :=
  ∀ names, (∀ name ∈ names, Path.IsName name) →
    (IsMade done (names.map .name) ↔ names = [] ∨ (nests.lookup names).isSome)

theorem Knows.merge {done : List Operation} {nests : Nests} (knows : Knows done nests)
    {operation : Operation} (merges : ¬ operation.Makes) : Knows (done ++ [operation]) nests := by
  intro names areNames
  rw [isMade_concat, knows names areNames]
  simp only [merges, false_and, or_false]

theorem Knows.nest {done : List Operation} {nests : Nests} (knows : Knows done nests)
    {tree : TreePath} (inside : ∀ name ∈ tree, Path.IsName name) {operation : Operation}
    (makes : operation.Makes) (target : operation.target = Path.ofNames tree) (nickname : String) :
    Knows (done ++ [operation]) ((tree, nickname) :: nests) := by
  intro names areNames
  have same : tree.map PathPart.name = names.map PathPart.name ↔ tree = names :=
    List.map_inj_right fun _ _ same => PathPart.name.inj same
  rw [isMade_concat, knows names areNames, target, Path.parts_ofNames inside, same]
  by_cases this : names = tree
  · subst this
    rw [List.lookup_cons_self]
    exact ⟨fun _ => .inr rfl, fun _ => .inr ⟨makes, rfl⟩⟩
  · rw [List.lookup_cons, beq_eq_false_iff_ne.mpr this]
    exact or_iff_left fun that => this that.2.symm

/-- The operations of a block fit behind those that have made its tree and the nests known. -/
theorem ofBlock_fits {block : Instructions Pinned} {ancestors : List (String × String)}
    {here : TreePath} {depth : Nat} {nests final : Nests} {done operations : List Operation}
    (planned : ofBlock ancestors here depth nests block = .ok (operations, final))
    (inside : ∀ name ∈ here, Path.IsName name) (stands : IsMade done (here.map .name))
    (knows : Knows done nests) :
    InTurn Fits done operations ∧ Knows (done ++ operations) final ∧
      ∀ operation ∈ operations, operation.IsInside ∧ operation.action ≠ .checkout := by
  induction block generalizing ancestors here depth nests final done operations with
  | done =>
      cases planned
      rw [List.append_nil]
      exact ⟨trivial, knows, List.forall_mem_nil _⟩
  | step nickname directive branch inner later innerIh laterIh =>
      cases directive with
      | merge =>
          obtain ⟨under, middle, after, within, behind, rfl⟩ := ofBlock_merge_eq_ok_iff.mp planned
          have merges : ¬ (mergeOperation ancestors here depth nickname branch).Makes :=
            fun makes => makes rfl
          have target : (mergeOperation ancestors here depth nickname branch).target.parts =
            here.map .name := Path.parts_ofNames inside
          obtain ⟨underFits, knows, underInside⟩ := innerIh within inside
            (isMade_concat.mpr (.inl stands)) (knows.merge merges)
          obtain ⟨afterFits, knows, afterInside⟩ := laterIh behind inside
            (isMade_append.mpr (.inl (isMade_concat.mpr (.inl stands)))) knows
          refine ⟨⟨?_, inTurn_append.mpr ⟨underFits, afterFits⟩⟩, ?_, ?_⟩
          · rw [Fits, target]
            exact iff_of_false merges (not_not_intro stands)
          · rw [List.append_cons, ← List.append_assoc]
            exact knows
          · refine List.forall_mem_cons.mpr ⟨⟨⟨here, inside, rfl⟩, fun impossible => ?_⟩,
              List.forall_mem_append.mpr ⟨underInside, afterInside⟩⟩
            cases impossible
      | nest location =>
          obtain ⟨names, under, middle, after, spelled, free, within, behind, rfl⟩ :=
            ofBlock_nest_eq_ok_iff.mp planned
          obtain ⟨some, areNames⟩ := locationNames_eq_ok spelled
          have inner := List.forall_mem_append.mpr ⟨inside, areNames⟩
          have makes : (nestOperation (here ++ names) depth nickname location branch).Makes :=
            fun impossible => by cases impossible
          have target : (nestOperation (here ++ names) depth nickname location branch).target.parts =
            (here ++ names).map .name := Path.parts_ofNames inner
          have new : ¬ IsMade done ((here ++ names).map .name) := by
            rw [knows _ inner, free]
            rintro (none | impossible)
            · exact some (List.append_eq_nil_iff.mp none).2
            · cases impossible
          obtain ⟨underFits, knows, underInside⟩ := innerIh within inner
            (isMade_concat.mpr (.inr ⟨makes, target⟩)) (knows.nest inner makes rfl nickname)
          obtain ⟨afterFits, knows, afterInside⟩ := laterIh behind inside
            (isMade_append.mpr (.inl (isMade_concat.mpr (.inl stands)))) knows
          refine ⟨⟨?_, inTurn_append.mpr ⟨underFits, afterFits⟩⟩, ?_, ?_⟩
          · rw [Fits, target]
            exact iff_of_true makes new
          · rw [List.append_cons, ← List.append_assoc]
            exact knows
          · refine List.forall_mem_cons.mpr ⟨⟨⟨here ++ names, inner, rfl⟩, fun impossible => ?_⟩,
              List.forall_mem_append.mpr ⟨underInside, afterInside⟩⟩
            cases impossible

/-- The operations of a plan fit one behind the other, each on a tree inside the build root, and
only the first one is a checkout. -/
theorem ofTree_fits {tree : Tree Pinned} {operations : List Operation}
    (planned : ofTree tree = .ok operations) :
    InTurn Fits [] operations ∧ ∀ operation ∈ operations, operation.IsInside ∧
      (operation.action = .checkout → operation.target = Path.ofNames []) := by
  obtain ⟨others, nests, block, rfl⟩ := ofTree_eq_ok_iff.mp planned
  have makes : (rootOperation tree.base).Makes := fun impossible => by cases impossible
  have known : Knows [rootOperation tree.base] [] := by
    intro names _
    rw [← List.nil_append [rootOperation tree.base], isMade_concat]
    constructor
    · rintro (impossible | ⟨_, same⟩)
      · exact absurd impossible not_isMade_nil
      · exact .inl (List.map_eq_nil_iff.mp same.symm)
    · rintro (rfl | impossible)
      · exact .inr ⟨makes, rfl⟩
      · cases impossible
  obtain ⟨fits, _, inside⟩ := ofBlock_fits block (List.forall_mem_nil _)
    (isMade_concat.mpr (.inr ⟨makes, rfl⟩) : IsMade ([] ++ [rootOperation tree.base]) []) known
  refine ⟨⟨iff_of_true makes not_isMade_nil, fits⟩, List.forall_mem_cons.mpr ⟨?_, ?_⟩⟩
  · exact ⟨⟨[], List.forall_mem_nil _, rfl⟩, fun _ => rfl⟩
  · exact fun operation member =>
      ⟨(inside operation member).1, fun this => absurd this (inside operation member).2⟩

section

variable {tree : Tree Pinned} {operations done later : List Operation} {operation : Operation}

/-- A merge of a plan goes into the root tree or into one that a nest before it makes. -/
theorem target_of_merge (planned : ofTree tree = .ok operations)
    (plan : operations = done ++ operation :: later) (merges : ¬ operation.Makes) :
    operation.target = ⟨""⟩ ∨
      ∃ nest ∈ done, nest.action.kind = .nest ∧ nest.target = operation.target := by
  obtain ⟨fits, placed⟩ := ofTree_fits planned
  subst plan
  obtain ⟨donePlaced, rest⟩ := List.forall_mem_append.mp placed
  obtain ⟨earlier, member, makes, same⟩ := not_not.mp (mt fits.at_middle.mpr merges)
  obtain ⟨inside, root⟩ := donePlaced earlier member
  have target := inside.target_eq (rest operation List.mem_cons_self).1 same
  cases action : earlier.action with
  | checkout => exact .inl (target.symm.trans (root action))
  | merge => exact absurd makes (Operation.not_makes_of_merge action)
  | nest => exact .inr ⟨earlier, member, by rw [action]; rfl, target⟩

/-- A tree that an operation of a plan makes is made by none before it. -/
theorem target_ne_of_makes (planned : ofTree tree = .ok operations)
    (plan : operations = done ++ operation :: later) (makes : operation.Makes) :
    ∀ earlier ∈ done, earlier.Makes → earlier.target ≠ operation.target := by
  obtain ⟨fits, _⟩ := ofTree_fits planned
  subst plan
  intro earlier member earlierMakes same
  exact fits.at_middle.mp makes ⟨earlier, member, earlierMakes, by rw [same]⟩

end

end Plan

end SourceRecipe
