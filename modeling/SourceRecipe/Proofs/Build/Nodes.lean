import SourceRecipe.Proofs.Build.Plan
import SourceRecipe.Proofs.Path
import SourceRecipe.Proofs.Tree.Listing

/-!
# Plans, node by node

The nodes of a pinned tree are its branches below the base, in the order of recipe text, each with
the branches above it and with the tree that it works on.  A plan has one operation for each of
them.  It is refused at the first nest whose location does not lead inside the tree around it, or
which comes to the tree of a nest before it; that the walk through the tree finds this one is
`ofBlock_eq_foldlM`, by which it is a single pass over the nodes.
-/

namespace SourceRecipe.Plan

open SourceRecipe.Text

/-! ## Locations -/

/-- Whether a piece of a location is a segment of it: it is neither empty nor a point. -/
def isSegment (piece : List Char) : Bool :=
  piece ≠ [] ∧ piece ≠ ['.']

def segments (location : String) : List String :=
  ((pieces '/' location.toList).filter isSegment).map String.ofList

structure IsInner (location : String) : Prop where
  relative : location.toList.head? ≠ some '/'
  stays : ".." ∉ segments location
  leads : segments location ≠ []

def flaw? (location : String) : Option LocationFlaw :=
  if location.toList.head? = some '/' then some .absolute
  else if ".." ∈ segments location then some .leavesParent
  else if segments location = [] then some .isParent
  else none

theorem flaw?_eq_none_iff {location : String} : flaw? location = none ↔ IsInner location := by
  rw [flaw?]
  constructor
  · intro sound
    split at sound
    · cases sound
    · rename_i relative
      split at sound
      · cases sound
      · rename_i stays
        split at sound
        · cases sound
        · rename_i leads
          exact ⟨relative, stays, leads⟩
  · rintro ⟨relative, stays, leads⟩
    rw [if_neg relative, if_neg stays, if_neg leads]

theorem namesOf_filterMap_part? (cut : List (List Char)) :
    namesOf (cut.filterMap Path.part?) =
      if ['.', '.'] ∈ cut then .error .leavesParent
      else .ok ((cut.filter isSegment).map String.ofList) := by
  induction cut with
  | nil => rfl
  | cons piece others ih =>
      by_cases silent : piece = [] ∨ piece = ['.']
      · have nothing : Path.part? piece = none := if_pos silent
        have differs : ['.', '.'] ≠ piece := by
          rintro rfl
          exact absurd silent (by decide)
        have dropped : ¬ isSegment piece = true := by
          rw [isSegment, decide_eq_true_eq, ← not_or]
          exact not_not_intro silent
        rw [List.filterMap_cons_none nothing, ih, List.filter_cons_of_neg dropped]
        simp only [List.mem_cons, differs, false_or]
      · have kept : isSegment piece = true := by
          rw [isSegment, decide_eq_true_eq, ← not_or]
          exact silent
        by_cases up : piece = ['.', '.']
        · subst up
          rw [if_pos List.mem_cons_self]
          rfl
        · have named : Path.part? piece = some (.name (String.ofList piece)) := by
            rw [Path.part?, if_neg silent, if_neg up]
          rw [List.filterMap_cons_some named, namesOf, ih, List.filter_cons_of_pos kept]
          simp only [List.mem_cons, Ne.symm up, false_or]
          split <;> rfl

theorem mem_segments_up {location : String} :
    ".." ∈ segments location ↔ ['.', '.'] ∈ pieces '/' location.toList := by
  rw [segments, List.mem_map]
  constructor
  · rintro ⟨piece, member, same⟩
    have chars : piece = ['.', '.'] := by
      rw [← String.toList_ofList (l := piece), same]
      rfl
    rw [← chars]
    exact (List.mem_filter.mp member).1
  · intro member
    exact ⟨['.', '.'], List.mem_filter.mpr ⟨member, rfl⟩, rfl⟩

/-- A location spells its segments, unless something is wrong with it. -/
theorem locationNames_eq (location : String) :
    locationNames location =
      match flaw? location with
      | some flaw => .error flaw
      | none => .ok (segments location) := by
  have parts := Path.parts_eq ⟨location⟩
  rw [locationNames, parts, Path.isAbsolute, Path.chars, flaw?]
  by_cases absolute : location.toList.head? = some '/'
  · rw [if_pos (beq_iff_eq.mpr absolute), if_pos absolute]
    rfl
  · have skipped : ∀ cut : List PathPart,
        namesOf ((if (pieces '/' location.toList).head? = some ['.'] then [PathPart.here]
          else []) ++ cut) = namesOf cut := by
      intro cut
      split <;> rfl
    rw [if_neg (mt beq_iff_eq.mp absolute), if_neg absolute, skipped, namesOf_filterMap_part?,
      ← segments]
    by_cases up : ".." ∈ segments location
    · rw [if_pos (mem_segments_up.mp up), if_pos up]
    · rw [if_neg (mt mem_segments_up.mpr up), if_neg up]
      cases segments location with
      | nil => rfl
      | cons first others => rfl

/-! ## Nodes -/

/-- A branch below the base, with the branches above it, the nearest one first, and the tree that it
works on. -/
structure Node where
  above : List Pinned
  nickname : String
  directive : Directive
  branch : Pinned
  place : TreePath

/-- The tree that a branch works on when the one around it is at `here`. -/
def placeBelow (here : TreePath) : Directive → TreePath
  | .merge => here
  | .nest location => here ++ segments location

/-- The nodes of a block that stands under some branches and works on the tree at `here`. -/
def nodesOf (above : List Pinned) (here : TreePath) : Instructions Pinned → List Node
  | .done => []
  | .step nickname directive branch inner later =>
      ⟨above, nickname, directive, branch, placeBelow here directive⟩ ::
        (nodesOf (branch :: above) (placeBelow here directive) inner ++ nodesOf above here later)

def nodes (tree : Tree Pinned) : List Node :=
  nodesOf [tree.base] [] tree.instructions

namespace Node

/-- The base does not count for the depth. -/
def depth (node : Node) : Nat :=
  node.above.length - 1

def entry (node : Node) : Entry Pinned :=
  ⟨node.depth, node.nickname, node.directive, node.branch⟩

def action (node : Node) : Action :=
  match node.directive with
  | .merge =>
      .merge node.nickname (decide (∃ ancestor ∈ node.above, ancestor.key = node.branch.key))
  | .nest location => .nest node.nickname location

def operation (node : Node) : Operation :=
  ⟨node.action, node.branch.source.location, node.branch.revision, Path.ofNames node.place,
    node.depth⟩

def IsNest (node : Node) : Prop :=
  ∃ location, node.directive = .nest location

end Node

/-- The nodes of a block are the lines of its listing. -/
theorem map_entry_nodesOf {above : List Pinned} {depth : Nat} (under : above.length = depth + 1)
    (here : TreePath) (block : Instructions Pinned) :
    (nodesOf above here block).map Node.entry = block.listing depth := by
  induction block generalizing above depth here with
  | done => rfl
  | step nickname directive branch inner later innerIh laterIh =>
      have deeper : (branch :: above).length = depth + 1 + 1 := congrArg Nat.succ under
      rw [nodesOf, List.map_cons, List.map_append, innerIh deeper, laterIh under, Node.entry,
        Node.depth, under]
      rfl

/-! ## One pass over the nodes -/

def accept (nests : Nests) (node : Node) : Except PlanError Nests :=
  match node.directive with
  | .merge => .ok nests
  | .nest location =>
      match flaw? location with
      | some flaw => .error (.malformedNest node.nickname location flaw)
      | none =>
          match nests.lookup node.place with
          | some first =>
              .error (.duplicateNest (Path.ofNames node.place).text first node.nickname)
          | none => .ok ((node.place, node.nickname) :: nests)

theorem contains_map_key (above : List Pinned) (branch : Pinned) :
    (above.map Pinned.key).contains branch.key =
      decide (∃ ancestor ∈ above, ancestor.key = branch.key) := by
  rw [Bool.eq_iff_iff, List.contains_iff_mem, List.mem_map, decide_eq_true_eq]

/-- What stands under a node and what stands behind it are planned in turn when both are planned by
accepting their nodes. -/
theorem planned_in_turn {under after : List Node} {known : Nests}
    {inner : Except PlanError (List Operation × Nests)}
    {later : Nests → Except PlanError (List Operation × Nests)}
    (inside : inner = (under.foldlM accept known).map fun final =>
      (under.map Node.operation, final))
    (behind : ∀ middle, later middle = (after.foldlM accept middle).map fun final =>
      (after.map Node.operation, final)) (operation : Operation) :
    (do
      let first ← inner
      let second ← later first.2
      .ok (operation :: (first.1 ++ second.1), second.2)) =
    ((under ++ after).foldlM accept known).map fun final =>
      (operation :: (under ++ after).map Node.operation, final) := by
  rw [inside, List.foldlM_append, List.map_append]
  cases under.foldlM accept known with
  | error error => rfl
  | ok middle =>
      change (do
        let second ← later middle
        .ok (operation :: (_ ++ second.1), second.2)) = Except.map _ (after.foldlM accept middle)
      rw [behind middle]
      cases after.foldlM accept middle with
      | error error => rfl
      | ok final => rfl

/-- Planning a block accepts its nodes one after the other and gives the operation of each. -/
theorem ofBlock_eq_foldlM {above : List Pinned} {depth : Nat} (under : above.length = depth + 1)
    (here : TreePath) (nests : Nests) (block : Instructions Pinned) :
    ofBlock (above.map Pinned.key) here depth nests block =
      ((nodesOf above here block).foldlM accept nests).map fun final =>
        ((nodesOf above here block).map Node.operation, final) := by
  induction block generalizing above depth here nests with
  | done => rfl
  | step nickname directive branch inner later innerIh laterIh =>
      have deeper : (branch :: above).length = depth + 1 + 1 := congrArg Nat.succ under
      have level : above.length - 1 = depth := by rw [under, Nat.add_sub_cancel]
      cases directive with
      | merge =>
          refine (planned_in_turn (innerIh deeper here nests) (laterIh under here) _).trans ?_
          rw [nodesOf, List.foldlM_cons, List.map_cons, Node.operation, Node.depth, level,
            Node.action, contains_map_key]
          rfl
      | nest location =>
          rw [ofBlock, locationNames_eq, nodesOf, List.foldlM_cons, List.map_cons, accept]
          dsimp only [placeBelow]
          cases flaw? location with
          | some flaw => rfl
          | none =>
              dsimp only
              cases nests.lookup (here ++ segments location) with
              | some first => rfl
              | none =>
                  refine (planned_in_turn (innerIh deeper _ _) (laterIh under here) _).trans ?_
                  rw [Node.operation, Node.depth, level, Node.action]
                  rfl

/-! ## Which nodes are refused -/

/-- Whether a node, if it is a nest, leads inside the tree around it and to another place than the
nests before it. -/
def Accepts (before : List Node) (node : Node) : Prop :=
  ∀ location, node.directive = .nest location →
    IsInner location ∧ ∀ earlier ∈ before, earlier.IsNest → earlier.place ≠ node.place

inductive Refuses (before : List Node) (node : Node) : PlanError → Prop where
  | malformed {location : String} {flaw : LocationFlaw} (nest : node.directive = .nest location)
      (wrong : flaw? location = some flaw) :
      Refuses before node (.malformedNest node.nickname location flaw)
  | duplicate {location : String} {earlier : Node} (nest : node.directive = .nest location)
      (inner : IsInner location) (member : earlier ∈ before) (other : earlier.IsNest)
      (same : earlier.place = node.place) :
      Refuses before node
        (.duplicateNest (Path.ofNames node.place).text earlier.nickname node.nickname)

/-- Whether the nests among some nodes all lead inside the trees around them, each to a place of its
own. -/
structure AreApart (nodes : List Node) : Prop where
  inner : ∀ node ∈ nodes, ∀ location, node.directive = .nest location → IsInner location
  apart : nodes.Pairwise fun earlier later =>
    earlier.IsNest → later.IsNest → earlier.place ≠ later.place

theorem areApart_nil : AreApart [] :=
  ⟨List.forall_mem_nil _, List.Pairwise.nil⟩

theorem areApart_concat {before : List Node} {node : Node} :
    AreApart (before ++ [node]) ↔ AreApart before ∧ Accepts before node := by
  constructor
  · rintro ⟨inner, apart⟩
    obtain ⟨beforeInner, nodeInner⟩ := List.forall_mem_append.mp inner
    obtain ⟨beforeApart, _, across⟩ := List.pairwise_append.mp apart
    refine ⟨⟨beforeInner, beforeApart⟩, fun location nest => ⟨?_, ?_⟩⟩
    · exact nodeInner node List.mem_cons_self location nest
    · exact fun earlier member other =>
        across earlier member node List.mem_cons_self other ⟨location, nest⟩
  · rintro ⟨⟨inner, apart⟩, accepts⟩
    refine ⟨List.forall_mem_append.mpr ⟨inner, List.forall_mem_singleton.mpr ?_⟩,
      List.pairwise_append.mpr ⟨apart, List.pairwise_singleton _ _, fun earlier member => ?_⟩⟩
    · exact fun location nest => (accepts location nest).1
    · refine List.forall_mem_singleton.mpr fun other nest => ?_
      obtain ⟨location, nest⟩ := nest
      exact (accepts location nest).2 earlier member other

theorem AreApart.of_append {before after : List Node} (areApart : AreApart (before ++ after)) :
    AreApart before :=
  ⟨(List.forall_mem_append.mp areApart.inner).1, (List.pairwise_append.mp areApart.apart).1⟩

def Records (before : List Node) (nests : Nests) : Prop :=
  ∀ place first, nests.lookup place = some first ↔
    ∃ earlier ∈ before, earlier.IsNest ∧ earlier.place = place ∧ earlier.nickname = first

section

variable {before others : List Node} {node : Node} {nests known : Nests} {error : PlanError}

theorem records_nil : Records [] [] := by
  intro place first
  constructor
  · intro impossible
    cases impossible
  · rintro ⟨_, impossible, _⟩
    cases impossible

/-- A place that no nest before has come to is not known. -/
theorem Records.lookup_eq_none_iff (records : Records before nests) {place : TreePath} :
    nests.lookup place = none ↔
      ∀ earlier ∈ before, earlier.IsNest → earlier.place ≠ place := by
  constructor
  · intro free earlier member other same
    have taken := (records place earlier.nickname).mpr ⟨earlier, member, other, same, rfl⟩
    rw [free] at taken
    cases taken
  · intro free
    cases taken : nests.lookup place with
    | none => rfl
    | some first =>
        obtain ⟨earlier, member, other, same, _⟩ := (records place first).mp taken
        exact absurd same (free earlier member other)

/-- What a node adds to the nests known is known behind it, and nothing else. -/
theorem Records.accept (records : Records before nests) (accepted : accept nests node = .ok known) :
    Accepts before node ∧ Records (before ++ [node]) known := by
  rw [Plan.accept] at accepted
  split at accepted
  · rename_i merge
    cases accepted
    have noNest : ¬ node.IsNest := by
      rintro ⟨_, impossible⟩
      cases merge.symm.trans impossible
    refine ⟨fun location nest => absurd ⟨location, nest⟩ noNest, fun place first => ?_⟩
    rw [records place first]
    simp only [List.mem_append, List.mem_singleton, or_and_right, exists_or, exists_eq_left, noNest,
      false_and, or_false]
  · rename_i location nest
    split at accepted
    · cases accepted
    · rename_i sound
      split at accepted
      · cases accepted
      · rename_i free
        cases accepted
        have apart := records.lookup_eq_none_iff.mp free
        refine ⟨fun other same => ?_, fun place first => ?_⟩
        · cases nest.symm.trans same
          exact ⟨flaw?_eq_none_iff.mp sound, apart⟩
        · have isNest : node.IsNest := ⟨location, nest⟩
          simp only [List.mem_append, List.mem_singleton, or_and_right, exists_or, exists_eq_left,
            isNest, true_and, List.lookup_cons]
          by_cases same : place = node.place
          · subst same
            simp only [beq_self_eq_true, Option.some.injEq, true_and]
            refine ⟨.inr, fun either => either.resolve_left ?_⟩
            rintro ⟨earlier, member, other, there, _⟩
            exact apart earlier member other there
          · rw [beq_eq_false_iff_ne.mpr same, records place first]
            exact (or_iff_left fun there => same there.1.symm).symm

theorem exists_accept_of_accepts (records : Records before nests) (accepts : Accepts before node) :
    ∃ known, accept nests node = .ok known := by
  rw [accept]
  cases directive : node.directive with
  | merge => exact ⟨nests, rfl⟩
  | nest location =>
      obtain ⟨inner, apart⟩ := accepts location directive
      dsimp only
      rw [flaw?_eq_none_iff.mpr inner]
      dsimp only
      rw [records.lookup_eq_none_iff.mpr apart]
      exact ⟨_, rfl⟩

theorem accept_eq_error_iff (records : Records before nests) :
    accept nests node = .error error ↔ Refuses before node error := by
  rw [accept]
  constructor
  · intro refused
    split at refused
    · cases refused
    · rename_i location nest
      split at refused
      · rename_i flaw wrong
        cases refused
        exact .malformed nest wrong
      · rename_i sound
        split at refused
        · rename_i first taken
          cases refused
          obtain ⟨earlier, member, other, same, rfl⟩ := (records node.place first).mp taken
          exact .duplicate nest (flaw?_eq_none_iff.mp sound) member other same
        · cases refused
  · intro refuses
    cases refuses with
    | malformed nest wrong =>
        rw [nest]
        dsimp only
        rw [wrong]
    | @duplicate location earlier nest inner member other same =>
        have taken := (records node.place earlier.nickname).mpr ⟨earlier, member, other, same, rfl⟩
        rw [nest]
        dsimp only
        rw [flaw?_eq_none_iff.mpr inner]
        dsimp only
        rw [taken]

/-- Nodes are accepted together when their nests are apart from one another and from those before
them. -/
theorem foldlM_accept_eq_ok_iff (records : Records before nests) (apart : AreApart before) :
    (∃ known, others.foldlM accept nests = .ok known) ↔ AreApart (before ++ others) := by
  induction others generalizing before nests with
  | nil =>
      rw [List.append_nil]
      exact ⟨fun _ => apart, fun _ => ⟨nests, rfl⟩⟩
  | cons node others ih =>
      rw [List.append_cons, List.foldlM_cons]
      cases accepted : accept nests node with
      | error error =>
          constructor
          · rintro ⟨_, impossible⟩
            cases impossible
          · intro whole
            obtain ⟨known, impossible⟩ :=
              exists_accept_of_accepts records (areApart_concat.mp whole.of_append).2
            rw [accepted] at impossible
            cases impossible
      | ok known =>
          obtain ⟨accepts, records⟩ := records.accept accepted
          exact ih records (areApart_concat.mpr ⟨apart, accepts⟩)

/-- Nodes are refused together when one of them is and those before it are apart. -/
theorem foldlM_accept_eq_error_iff (records : Records before nests) (apart : AreApart before) :
    others.foldlM accept nests = .error error ↔
      ∃ front node back, others = front ++ node :: back ∧ AreApart (before ++ front) ∧
        Refuses (before ++ front) node error := by
  induction others generalizing before nests with
  | nil =>
      constructor
      · intro impossible
        cases impossible
      · rintro ⟨_, _, _, impossible, _⟩
        exact absurd impossible.symm (List.append_ne_nil_of_right_ne_nil _ (List.cons_ne_nil _ _))
  | cons first others ih =>
      rw [List.foldlM_cons]
      cases accepted : accept nests first with
      | error other =>
          constructor
          · intro refused
            cases refused
            refine ⟨[], first, others, rfl, ?_, ?_⟩
            · rw [List.append_nil]
              exact apart
            · rw [List.append_nil]
              exact (accept_eq_error_iff records).mp accepted
          · rintro ⟨front, node, back, same, whole, refuses⟩
            cases front with
            | nil =>
                cases same
                rw [List.append_nil] at refuses
                rw [← accepted, (accept_eq_error_iff records).mpr refuses]
                rfl
            | cons _ front =>
                cases same
                rw [List.append_cons] at whole
                obtain ⟨known, impossible⟩ :=
                  exists_accept_of_accepts records (areApart_concat.mp whole.of_append).2
                rw [accepted] at impossible
                cases impossible
      | ok known =>
          obtain ⟨accepts, further⟩ := records.accept accepted
          have step := ih further (areApart_concat.mpr ⟨apart, accepts⟩)
          constructor
          · intro refused
            obtain ⟨front, node, back, rfl, whole, refuses⟩ := step.mp refused
            rw [← List.append_cons] at whole refuses
            exact ⟨first :: front, node, back, rfl, whole, refuses⟩
          · rintro ⟨front, node, back, same, whole, refuses⟩
            cases front with
            | nil =>
                cases same
                rw [List.append_nil] at refuses
                rw [(accept_eq_error_iff records).mpr refuses] at accepted
                cases accepted
            | cons _ front =>
                cases same
                rw [List.append_cons] at whole refuses
                exact step.mpr ⟨front, node, back, rfl, whole, refuses⟩

end

/-- A tree has a plan exactly when its nests all lead inside the trees around them, each to a place
of its own, and then the plan makes the root tree and has the operation of each node in turn.  It is
refused at the first node of which this does not hold. -/
theorem ofTree_eq_iff_nodes (tree : Tree Pinned) :
    (nodes tree).map Node.entry = tree.instructions.listing 0 ∧
    (∀ operations, ofTree tree = .ok operations ↔
      AreApart (nodes tree) ∧
        operations = rootOperation tree.base :: (nodes tree).map Node.operation) ∧
    ∀ error, ofTree tree = .error error ↔
      ∃ before node after, nodes tree = before ++ node :: after ∧ AreApart before ∧
        Refuses before node error := by
  have root : [tree.base].length = 0 + 1 := rfl
  have pass : ofBlock [tree.base.key] [] 0 [] tree.instructions =
      ((nodes tree).foldlM accept []).map fun final => ((nodes tree).map Node.operation, final) :=
    ofBlock_eq_foldlM root [] [] tree.instructions
  have accepted : (∃ known, (nodes tree).foldlM accept [] = .ok known) ↔ AreApart (nodes tree) :=
    foldlM_accept_eq_ok_iff records_nil areApart_nil
  refine ⟨map_entry_nodesOf root [] tree.instructions, fun operations => ?_, fun error => ?_⟩
  · rw [ofTree_eq_ok_iff, ← accepted, pass]
    cases (nodes tree).foldlM accept [] with
    | error error =>
        constructor
        · rintro ⟨_, _, impossible, _⟩
          cases impossible
        · rintro ⟨⟨_, impossible⟩, _⟩
          cases impossible
    | ok final =>
        constructor
        · rintro ⟨others, known, same, rfl⟩
          cases same
          exact ⟨⟨final, rfl⟩, rfl⟩
        · rintro ⟨_, rfl⟩
          exact ⟨_, final, rfl, rfl⟩
  · have refused : (nodes tree).foldlM accept [] = .error error ↔
        ∃ before node after, nodes tree = before ++ node :: after ∧ AreApart before ∧
          Refuses before node error :=
      foldlM_accept_eq_error_iff records_nil areApart_nil
    rw [ofTree_eq_error_iff, ← refused, pass]
    cases (nodes tree).foldlM accept [] with
    | error other =>
        constructor
        · intro same
          cases same
          rfl
        · intro same
          cases same
          rfl
    | ok final =>
        constructor
        · intro impossible
          cases impossible
        · intro impossible
          cases impossible

end SourceRecipe.Plan
