import Mathlib.Data.List.Basic
import SourceRecipe.Git.Backend
import SourceRecipe.Proofs.FileTree

/-!
# Directories for new trees

A tree is made where nothing is, or in an empty directory.  Such a place stays one when something is
removed elsewhere.
-/

namespace SourceRecipe.Git

variable {ε : Type}

def targetFault? (files : FileTree) (target : Path) : Option Fault :=
  if files.has target then
    match files.listsAny target with
    | .error error => some (fileFault error)
    | .ok true => some (.other s!"{target.text} exists and is not empty")
    | .ok false => none
  else none

theorem needEmpty_run (target : Path) (world : World (Mirrors ε)) :
    needEmpty target world =
      (match targetFault? world.files target with
        | some fault => .error fault
        | none => .ok (), world) := by
  rw [needEmpty, run_bind]
  change (if world.files.has target then _ else _ : Call (Mirrors ε) Unit) world = _
  rw [targetFault?]
  split
  · cases world.files.listsAny target with
    | error error => rfl
    | ok occupied => cases occupied <;> rfl
  · rfl

/-- Whether nothing stands at a path, or an empty directory. -/
def IsVacant (files : FileTree) (target : Path) : Prop :=
  files.has target = true → files.listsAny target = .ok false

def IsFilled (files : FileTree) (target : Path) : Prop :=
  files.listsAny target = .ok true

instance (files : FileTree) (target : Path) : Decidable (IsVacant files target) :=
  inferInstanceAs (Decidable (_ → _))

instance (files : FileTree) (target : Path) : Decidable (IsFilled files target) :=
  inferInstanceAs (Decidable (_ = _))

section

variable {files : FileTree} {target : Path}

theorem has_of_listsAny {occupied : Bool} (lists : files.listsAny target = .ok occupied) :
    files.has target = true := by
  rw [FileTree.listsAny, bind_eq_ok_iff] at lists
  obtain ⟨node, found, _⟩ := lists
  exact FileTree.has_of_lookup found

theorem targetFault?_eq_none_iff : targetFault? files target = none ↔ IsVacant files target := by
  rw [targetFault?, IsVacant]
  cases files.has target with
  | false => simp
  | true =>
      cases files.listsAny target with
      | error error => simp
      | ok occupied => cases occupied <;> simp

/-- A directory with something in it is refused. -/
theorem targetFault?_of_filled (filled : IsFilled files target) :
    targetFault? files target = some (.other s!"{target.text} exists and is not empty") := by
  rw [targetFault?, if_pos (has_of_listsAny filled), filled]

theorem IsFilled.not_isVacant (filled : IsFilled files target) : ¬ IsVacant files target := by
  intro vacant
  have empty := vacant (has_of_listsAny filled)
  rw [IsFilled, empty] at filled
  cases filled

theorem listsAny_of_directory {spot : FileTree.Spot} (found : files.lookup target = .ok .directory)
    (led : files.spot target = .ok spot) :
    files.listsAny target = .ok (files.isOccupied spot.place) := by
  rw [FileTree.listsAny, found]
  change (files.spot target >>= fun spot => .ok (files.isOccupied spot.place)) = _
  rw [led]
  rfl

/-- What is empty in a tree is empty in every tree within it. -/
theorem IsVacant.of_within {less : FileTree} (within : FileTree.Within less files)
    (vacant : IsVacant files target) : IsVacant less target := by
  intro stands
  rw [FileTree.has] at stands
  split at stands
  case h_2 => cases stands
  case h_1 node found =>
    have empty := vacant (FileTree.has_of_lookup (within.lookup found))
    obtain ⟨spot, led⟩ : ∃ spot, less.spot target = .ok spot := by
      rw [FileTree.lookup, bind_eq_ok_iff] at found
      exact found.imp fun _ both => both.1
    cases node with
    | file content =>
        rw [FileTree.listsAny, within.lookup found] at empty
        cases empty
    | directory =>
        rw [listsAny_of_directory (within.lookup found) (within.spot led)] at empty
        rw [listsAny_of_directory found led, Except.ok.injEq, Bool.eq_false_iff]
        intro occupied
        have filled := within.isOccupied occupied
        rw [Except.ok.inj empty] at filled
        cases filled

theorem IsVacant.removeDirectory (vacant : IsVacant files target) (path : Path) :
    IsVacant (files.removeDirectory path) target :=
  vacant.of_within (FileTree.removeDirectory_within files path)

end

end SourceRecipe.Git
