import SourceRecipe.Build.Resolution

/-!
# Workers

Branches can be looked up by several workers side by side.  Each look-up takes its worker three
steps: to see whether another one has failed, and to leave this one out if so; to look the branch
up; and to tell of a failure.  The steps on different look-ups come in any order, and the outcomes
are kept by the places of the look-ups.
-/

namespace SourceRecipe

/-- The order in which the workers of a pool take their steps on some look-ups, each given by its
place.  A step on a look-up that is over does nothing, and every look-up gets as many as it may
need. -/
structure Turns (count : Nat) where
  order : List Nat
  whole : ∀ place < count, 3 ≤ order.count place

/-- How a number of workers share a number of look-ups. -/
abbrev Pool := (workers count : Nat) → Turns count

namespace Resolution

variable {σ : Type}

inductive Stage where
  /-- Nobody has begun with it. -/
  | waiting (source : Source)
  /-- It is to take place. -/
  | begun (source : Source)
  /-- There is an answer, and a failure has not been told of. -/
  | answered (answer : Except BuildError String)
  | ended (outcome : Outcome String)

def Stage.outcome : Stage → Outcome String
  | waiting _ => none
  | begun _ => none
  | answered answer => some answer
  | ended outcome => outcome

/-- Some look-ups under way, and whether a failure has been told of. -/
structure Shift where
  failed : Bool
  stages : List Stage

def Shift.put (shift : Shift) (place : Nat) (stage : Stage) : Shift :=
  { shift with stages := shift.stages.set place stage }

def Shift.ofSources (sources : List Source) : Shift :=
  ⟨false, sources.map .waiting⟩

/-- One step of the worker who has the look-up at a place. -/
def advance (backend : Backend σ) (token : Token) (place : Nat) (shift : Shift) :
    StateM (World σ) Shift :=
  match shift.stages[place]? with
  | some (.waiting source) =>
      return shift.put place (if shift.failed then .ended none else .begun source)
  | some (.begun source) => do
      let answer ← lookup backend token source
      return shift.put place (.answered answer)
  | some (.answered answer) =>
      return { shift.put place (.ended (some answer)) with failed := shift.failed || !answer.isOk }
  | _ => return shift

def advanceAll (backend : Backend σ) (token : Token) : List Nat → Shift → StateM (World σ) Shift
  | [], shift => return shift
  | place :: later, shift => do
      let next ← advance backend token place shift
      advanceAll backend token later next

/-- Looks up branches side by side, in the order of the turns taken. -/
def lookupBy (backend : Backend σ) (token : Token) (turns : (count : Nat) → Turns count)
    (sources : List Source) : StateM (World σ) (List (Outcome String)) := do
  let shift ← advanceAll backend token (turns sources.length).order (.ofSources sources)
  return shift.stages.map Stage.outcome

/-- Looks up branches with a number of workers.  One worker, or one look-up, needs no pool. -/
def lookupWith (backend : Backend σ) (token : Token) (workers : Nat) (pool : Pool)
    (sources : List Source) : StateM (World σ) (List (Outcome String)) :=
  if workers ≤ 1 ∨ sources.length = 1 then lookupAll backend token false sources
  else lookupBy backend token (pool workers) sources

def resolveWith (backend : Backend σ) (token : Token) (workers : Nat) (pool : Pool)
    (known : Revisions) (tree : Tree Source) :
    StateM (World σ) (Except BuildError (Tree Pinned) × Revisions) :=
  resolveBy (lookupWith backend token workers pool) known tree

end Resolution

namespace Turns

def thrice (places : List Nat) : List Nat :=
  places.flatMap fun place => [place, place, place]

theorem le_count_thrice {place : Nat} {places : List Nat} (member : place ∈ places) :
    3 ≤ (thrice places).count place := by
  induction places with
  | nil => cases member
  | cons first others ih =>
      rw [thrice, List.flatMap_cons, List.count_append]
      rcases List.mem_cons.mp member with rfl | member
      · rw [List.count_cons_self, List.count_cons_self, List.count_cons_self]
        exact Nat.le_trans (Nat.le_add_left _ _) (Nat.le_add_right _ _)
      · exact Nat.le_trans (ih member) (Nat.le_add_left _ _)

def inTurn (count : Nat) : Turns count where
  order := thrice (List.range count)
  whole _ below := le_count_thrice (List.mem_range.mpr below)

/-- The places of the back half and then those of the front half, without the first one. -/
def others (count : Nat) : List Nat :=
  List.range' (count / 2) (count - count / 2) ++ List.range' 1 (count / 2 - 1)

/-- A worker stays with the first look-up while another one takes the back half, and then what is
left of the front half. -/
def lagging (count : Nat) : Turns count where
  order := [0, 0] ++ thrice (others count) ++ [0]
  whole place below := by
    rw [List.count_append, List.count_append]
    by_cases first : place = 0
    · subst first
      have begun : [0, 0].count 0 = 2 := rfl
      have ended : [0].count 0 = 1 := rfl
      omega
    · have member : place ∈ others count := by
        rw [others, List.mem_append, List.mem_range'_1, List.mem_range'_1]
        omega
      have taken := le_count_thrice member
      omega

end Turns

def Pool.inTurn : Pool := fun _ count => .inTurn count

def Pool.lagging : Pool := fun _ count => .lagging count

end SourceRecipe
