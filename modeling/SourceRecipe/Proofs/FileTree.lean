import SourceRecipe.World
import SourceRecipe.Proofs.Sequence

/-!
# Files that were written and directories that were removed

A path leads to the same place before and after a file is written at it, because only directories
are walked through and a file takes the place of no directory.  So the file is found again under
the path it was written to, however the path is spelled.

What stands after a directory was removed stood before at the same place, and where a path leads
hangs on nothing else.
-/

namespace SourceRecipe

namespace FileTree

theorem node?_set_self {tree : FileTree} {place : Place} {node : FileNode} (inside : place ≠ []) :
    (tree.set place node).node? place = some node := by
  rw [node?, if_neg inside, set, Dict.get?_put_self]

theorem node?_set_of_ne {tree : FileTree} {place other : Place} {node : FileNode}
    (differs : place ≠ other) : (tree.set place node).node? other = tree.node? other := by
  rw [node?, node?, set, Dict.get?_put, if_neg differs]

/-- What stands at a name in a directory is read from the place of the name. -/
theorem entry?_eq_ok_iff {tree : FileTree} {around : Place} {name : String}
    {node : Option FileNode} :
    tree.entry? around name = .ok node ↔
      name.utf8ByteSize ≤ 255 ∧ tree.node? (around ++ [name]) = node := by
  rw [ entry?]
  by_cases long : 255 < name.utf8ByteSize
  · rw [if_pos long]
    constructor
    · intro impossible
      cases impossible
    · rintro ⟨short, _⟩
      exact absurd long (Nat.not_lt.mpr short)
  · rw [if_neg long, Except.ok.injEq]
    exact ⟨fun same => ⟨Nat.not_lt.mp long, same⟩, And.right⟩

/-- A file where no directory stood is in the way of no walk. -/
theorem walk_set {tree : FileTree} {place here there : Place} {content : ByteArray}
    {steps : List PathPart} (free : tree.node? place ≠ some .directory)
    (walked : tree.walk here steps = .ok there) :
    (tree.set place (.file content)).walk here steps = .ok there := by
  induction steps generalizing here with
  | nil => exact walked
  | cons step others ih =>
      cases step with
      | root => exact ih walked
      | here => exact ih walked
      | up => exact ih walked
      | name text =>
          rw [walk] at walked ⊢
          cases entry : tree.entry? here text with
          | error error =>
              rw [entry] at walked
              cases walked
          | ok node =>
              rw [entry] at walked
              obtain ⟨short, stands⟩ := entry?_eq_ok_iff.mp entry
              match node, stands with
              | none, _ => cases walked
              | some (.file _), _ => cases walked
              | some .directory, stands =>
                  have differs : place ≠ here ++ [text] := by
                    rintro rfl
                    exact free stands
                  rw [entry?_eq_ok_iff.mpr ⟨short, (node?_set_of_ne differs).trans stands⟩]
                  exact ih walked

theorem spot_set {tree : FileTree} {place : Place} {content : ByteArray} {path : Path} {spot : Spot}
    (free : tree.node? place ≠ some .directory) (led : tree.spot path = .ok spot) :
    (tree.set place (.file content)).spot path = .ok spot := by
  have walks {steps : List PathPart} {f : Place → Spot}
      (walked : (tree.walk tree.start steps).map f = .ok spot) :
      ((tree.set place (.file content)).walk tree.start steps).map f = .ok spot := by
    cases reached : tree.walk tree.start steps with
    | error error =>
        rw [reached] at walked
        cases walked
    | ok there =>
        rw [reached] at walked
        rw [walk_set free reached]
        exact walked
  rw [FileTree.spot] at led ⊢
  split at led
  · cases led
  · rename_i plain
    rw [if_neg plain]
    split at led
    · cases led
    · rename_i some
      rw [if_neg some]
      split at led
      · cases led
      · rename_i short
        rw [if_neg short]
        split at led
        · exact walks led
        · exact walks led

/-- The file that was written at a path stands there. -/
theorem lookup_of_writeBytes {tree after : FileTree} {path : Path} {content : ByteArray}
    (written : writeBytes path content tree = .ok after) :
    after.lookup path = .ok (.file content) := by
  rw [writeBytes, bind_eq_ok_iff] at written
  obtain ⟨spot, led, rest⟩ := written
  cases spot with
  | directory place => cases rest
  | entry around name =>
      simp only at rest
      by_cases slash : path.endsInSlash = true
      · rw [if_pos slash] at rest
        cases rest
      · rw [if_neg slash, bind_eq_ok_iff] at rest
        obtain ⟨node, entry, same⟩ := rest
        obtain ⟨short, stands⟩ := entry?_eq_ok_iff.mp entry
        have free : tree.node? (around ++ [name]) ≠ some .directory := by
          intro directory
          rw [stands] at directory
          subst directory
          cases same
        have replaced : after = tree.set (around ++ [name]) (.file content) := by
          match node, same with
          | none, same => exact (Except.ok.inj same).symm
          | some (.file _), same => exact (Except.ok.inj same).symm
        subst replaced
        have found : FileTree.entry? (tree.set (around ++ [name]) (.file content)) around name =
            .ok (some (.file content)) :=
          entry?_eq_ok_iff.mpr
            ⟨short, node?_set_self (List.append_ne_nil_of_right_ne_nil _ (List.cons_ne_nil _ _))⟩
        rw [lookup, bind_eq_ok_iff]
        refine ⟨.entry around name, spot_set free led, ?_⟩
        simp only [bind_eq_ok_iff]
        exact ⟨_, found, if_neg slash⟩

theorem has_of_lookup {tree : FileTree} {path : Path} {node : FileNode}
    (found : tree.lookup path = .ok node) : tree.has path = true := by
  rw [has, found]

/-- The text of a file is read back from its bytes. -/
theorem readText_of_lookup {tree : FileTree} {path : Path} {text : String}
    (found : tree.lookup path = .ok (.file text.toUTF8)) : tree.readText path = .ok text := by
  have decoded : String.fromUTF8? text.toUTF8 = some text := dif_pos text.isValidUTF8
  rw [readText, bind_eq_ok_iff]
  refine ⟨text.toUTF8, ?_, ?_⟩
  · rw [readBytes, bind_eq_ok_iff]
    exact ⟨_, found, rfl⟩
  · rw [decoded]

/-! ## Directories that were removed -/

/-- Whether all that stands in one tree stands at the same place in another one. -/
structure Within (less more : FileTree) : Prop where
  start : less.start = more.start
  node? : ∀ {place node}, less.node? place = some node → more.node? place = some node

namespace Within

variable {less more : FileTree}

theorem refl (tree : FileTree) : Within tree tree :=
  ⟨rfl, id⟩

/-- A walk through the smaller tree leads to the same place in the larger one. -/
theorem walk (within : Within less more) {here there : Place} {steps : List PathPart}
    (walked : less.walk here steps = .ok there) : more.walk here steps = .ok there := by
  induction steps generalizing here with
  | nil => exact walked
  | cons step others ih =>
      cases step with
      | root => exact ih walked
      | here => exact ih walked
      | up => exact ih walked
      | name text =>
          rw [FileTree.walk] at walked ⊢
          cases entry : less.entry? here text with
          | error error =>
              rw [entry] at walked
              cases walked
          | ok node =>
              rw [entry] at walked
              obtain ⟨short, stands⟩ := entry?_eq_ok_iff.mp entry
              match node, stands with
              | none, _ => cases walked
              | some (.file _), _ => cases walked
              | some .directory, stands =>
                  rw [entry?_eq_ok_iff.mpr ⟨short, within.node? stands⟩]
                  exact ih walked

theorem spot (within : Within less more) {path : Path} {spot : Spot}
    (led : less.spot path = .ok spot) : more.spot path = .ok spot := by
  have walks {steps : List PathPart} {f : Place → Spot}
      (walked : (less.walk less.start steps).map f = .ok spot) :
      (more.walk more.start steps).map f = .ok spot := by
    cases reached : less.walk less.start steps with
    | error error =>
        rw [reached] at walked
        cases walked
    | ok there =>
        rw [reached] at walked
        rw [← within.start, within.walk reached]
        exact walked
  rw [FileTree.spot] at led ⊢
  split at led
  · cases led
  · rename_i plain
    rw [if_neg plain]
    split at led
    · cases led
    · rename_i some
      rw [if_neg some]
      split at led
      · cases led
      · rename_i short
        rw [if_neg short]
        split at led
        · exact walks led
        · exact walks led

/-- What a path leads to in the smaller tree, it leads to in the larger one. -/
theorem lookup (within : Within less more) {path : Path} {node : FileNode}
    (found : less.lookup path = .ok node) : more.lookup path = .ok node := by
  rw [FileTree.lookup, bind_eq_ok_iff] at found ⊢
  obtain ⟨spot, led, rest⟩ := found
  refine ⟨spot, within.spot led, ?_⟩
  cases spot with
  | directory place => exact rest
  | entry around name =>
      simp only [bind_eq_ok_iff] at rest ⊢
      obtain ⟨found, entry, same⟩ := rest
      obtain ⟨short, stands⟩ := entry?_eq_ok_iff.mp entry
      match found, stands, same with
      | some other, stands, same =>
          exact ⟨some other, entry?_eq_ok_iff.mpr ⟨short, within.node? stands⟩, same⟩

theorem isOccupied (within : Within less more) {place : Place}
    (occupied : less.isOccupied place = true) : more.isOccupied place = true := by
  rw [FileTree.isOccupied, List.any_eq_true] at occupied ⊢
  obtain ⟨key, member, below⟩ := occupied
  refine ⟨key, ?_, below⟩
  have inside : key ≠ [] := by
    rintro rfl
    cases place with
    | nil => simp at below
    | cons name others => simp at below
  obtain ⟨node, stands⟩ := Option.isSome_iff_exists.mp (Dict.mem_keys_iff.mp member)
  have found : more.node? key = some node :=
    within.node? (by rw [FileTree.node?, if_neg inside, stands])
  rw [FileTree.node?, if_neg inside] at found
  rw [Dict.mem_keys_iff, found]
  rfl

end Within

theorem node?_of_removed {tree : FileTree} {place other : Place} :
    FileTree.node? { tree with
        nodes := ⟨tree.nodes.entries.filter fun entry => !place.isPrefixOf entry.1⟩ } other =
      if other = [] then some .directory else if place.isPrefixOf other then none
        else tree.node? other := by
  rw [FileTree.node?]
  by_cases root : other = []
  · rw [if_pos root, if_pos root]
  · rw [if_neg root, if_neg root, node?, if_neg root, Dict.get?, Dict.get?]
    induction tree.nodes.entries with
    | nil => simp [Dict.find?]
    | cons entry others ih =>
        obtain ⟨key, node⟩ := entry
        by_cases same : key = other
        · subst same
          by_cases below : place.isPrefixOf key = true
          · rw [List.filter_cons_of_neg (by simp [below]), ih, if_pos below, if_pos below]
          · rw [List.filter_cons_of_pos (by rw [Bool.not_eq_true] at below; rw [below]; rfl),
              if_neg below, Dict.find?, Dict.find?, if_pos rfl, if_pos rfl]
        · by_cases below : place.isPrefixOf key = true
          · rw [List.filter_cons_of_neg (by simp [below]), ih, Dict.find?, if_neg same]
          · rw [List.filter_cons_of_pos (by rw [Bool.not_eq_true] at below; rw [below]; rfl),
              Dict.find?, if_neg same, ih, Dict.find?, if_neg same]

/-- Removing a directory adds nothing. -/
theorem removeDirectory_within (tree : FileTree) (path : Path) :
    Within (tree.removeDirectory path) tree := by
  rw [removeDirectory]
  split
  · exact .refl tree
  · split
    · refine ⟨rfl, fun {place node} stands => ?_⟩
      rw [node?_of_removed] at stands
      split at stands
      · rename_i root
        rw [FileTree.node?, if_pos root]
        exact stands
      · split at stands
        · cases stands
        · exact stands
    · exact .refl tree

/-- A path that ends in a name leads to that name. -/
theorem spot_of_named {tree : FileTree} {path : Path} {name : String} {spot : Spot}
    (named : path.steps.getLast? = some (.name name)) (led : tree.spot path = .ok spot) :
    ∃ around, spot = .entry around name := by
  rw [FileTree.spot] at led
  split at led
  · cases led
  · split at led
    · cases led
    · split at led
      · cases led
      · rw [named] at led
        cases reached : tree.walk tree.start path.steps.dropLast with
        | error error =>
            rw [reached] at led
            cases led
        | ok around =>
            rw [reached] at led
            exact ⟨around, (Except.ok.inj led).symm⟩

/-- There is no directory at a path that ends in a name once it was removed. -/
theorem hasDirectory_removeDirectory {tree : FileTree} {path : Path} {name : String}
    (named : path.steps.getLast? = some (.name name)) :
    (tree.removeDirectory path).hasDirectory path = false := by
  rw [hasDirectory]
  split
  case h_2 => rfl
  case h_1 found =>
    exfalso
    rw [lookup, bind_eq_ok_iff] at found
    obtain ⟨spot, led, rest⟩ := found
    obtain ⟨around, rfl⟩ := spot_of_named named led
    have standing : (tree.removeDirectory path).node? (around ++ [name]) = some .directory := by
      simp only [bind_eq_ok_iff] at rest
      obtain ⟨node, entry, same⟩ := rest
      obtain ⟨_, stands⟩ := entry?_eq_ok_iff.mp entry
      rw [stands]
      match node, same with
      | some .directory, _ => rfl
      | some (.file content), same =>
          simp only at same
          split at same <;> cases same
    -- The directory stood there before, so that it was taken out.
    have before := (removeDirectory_within tree path).node? standing
    rw [removeDirectory, (removeDirectory_within tree path).spot led] at standing
    simp only [Spot.place, before] at standing
    rw [node?_of_removed, if_neg (by simp),
      if_pos (List.isPrefixOf_iff_prefix.mpr (List.prefix_refl _))] at standing
    cases standing

end FileTree

namespace FileWork

theorem writeText_eq_ok {path : Path} {text : String} {tree after : FileTree} {answer : Unit}
    (written : writeText path text tree = (.ok answer, after)) :
    after.lookup path = .ok (.file text.toUTF8) := by
  rw [writeText, writeBytes, change] at written
  cases updated : FileTree.writeBytes path text.toUTF8 tree with
  | error error =>
      rw [updated] at written
      cases written
  | ok other =>
      rw [updated] at written
      cases written
      exact FileTree.lookup_of_writeBytes updated

/-- Another account of failures changes nothing about success. -/
theorem mapError_eq_ok_iff {ε δ α : Type} {f : ε → δ} {work : FileWork ε α}
    {tree after : FileTree} {answer : α} :
    work.mapError f tree = (.ok answer, after) ↔ work tree = (.ok answer, after) := by
  rw [mapError]
  cases work tree with
  | mk result rest =>
      cases result with
      | error error =>
          constructor
          · intro impossible
            cases impossible
          · intro impossible
            cases impossible
      | ok found =>
          constructor
          · intro same
            cases same
            rfl
          · intro same
            cases same
            rfl

end FileWork

theorem World.onFiles_eq_ok_iff {σ ε α : Type} {work : FileWork ε α} {world after : World σ}
    {answer : α} :
    World.onFiles work world = (.ok answer, after) ↔
      ∃ files, work world.files = (.ok answer, files) ∧ after = { world with files := files } := by
  rw [World.onFiles]
  cases work world.files with
  | mk result files =>
      constructor
      · intro same
        cases same
        exact ⟨files, rfl, rfl⟩
      · rintro ⟨_, same, rfl⟩
        cases same
        rfl

end SourceRecipe
