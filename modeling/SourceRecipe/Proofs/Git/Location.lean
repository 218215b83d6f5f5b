import SourceRecipe.Git.Mirror
import SourceRecipe.Proofs.FileTree
import SourceRecipe.Proofs.Path

/-!
# Mirrors of locations

All branches of an address have the mirror of the address, and the mirror of every location has a
name in the cache directory, which is the hash of the address.
-/

namespace SourceRecipe.Git

open SourceRecipe.Text

theorem cutLast?_append {separator : Char} {after : List Char} (clear : separator ∉ after)
    (before : List Char) :
    cutLast? separator (before ++ separator :: after) = some (before, after) := by
  have turned : (before ++ separator :: after).reverse =
      after.reverse ++ separator :: before.reverse := by
    rw [List.reverse_append, List.reverse_cons, List.append_assoc, List.singleton_append]
  rw [cutLast?, turned, cutFirst?_append (fun member => clear (List.mem_reverse.mp member)),
    Option.map_some]
  dsimp only
  rw [List.reverse_reverse, List.reverse_reverse]

theorem split_of_branch {url branch : String} (some : url ≠ "") (named : branch ≠ "")
    (clear : '#' ∉ branch.toList) : split (url ++ "#" ++ branch) = (url, .some branch) := by
  have whole : (url ++ "#" ++ branch).toList = url.toList ++ '#' :: branch.toList := by
    rw [String.toList_append, String.toList_append, List.append_assoc]
    rfl
  have full : ¬ (url.toList.isEmpty || branch.toList.isEmpty) = true := by
    rw [Bool.or_eq_true, List.isEmpty_iff, List.isEmpty_iff, String.toList_eq_nil_iff,
      String.toList_eq_nil_iff]
    exact not_or.mpr ⟨some, named⟩
  rw [split, whole, cutLast?_append clear]
  dsimp only
  rw [if_neg full, String.ofList_toList, String.ofList_toList]

theorem split_of_clear {url : String} (clear : '#' ∉ url.toList) : split url = (url, none) := by
  rw [split, cutLast?, cutFirst?_eq_none (fun member => clear (List.mem_reverse.mp member))]
  rfl

/-- Whether two locations are branches of one address, or one of them the address itself. -/
def DifferInBranch (one other : String) : Prop :=
  ∃ url, url ≠ "" ∧ ∀ location, location = one ∨ location = other →
    (location = url ∧ '#' ∉ url.toList) ∨
      ∃ branch, branch ≠ "" ∧ '#' ∉ branch.toList ∧ location = url ++ "#" ++ branch

theorem DifferInBranch.address_eq {one other : String} (differ : DifferInBranch one other) :
    address one = address other := by
  obtain ⟨url, some, spelled⟩ := differ
  have known {location : String} (among : location = one ∨ location = other) :
      address location = url := by
    rcases spelled location among with ⟨rfl, clear⟩ | ⟨branch, named, clear, rfl⟩
    · rw [address, split_of_clear clear]
    · rw [address, split_of_branch some named clear]
  rw [known (.inl rfl), known (.inr rfl)]

theorem mirrorPath_eq {one other : String} (same : address one = address other)
    (options : Options) : mirrorPath options one = mirrorPath options other := by
  rw [mirrorPath, mirrorPath, same]

/-! ## The name of a mirror -/

theorem hexDigit_isAlphanum : ∀ n < 16, (hexDigit n).isAlphanum = true := by
  decide

theorem hexPadded_isAlphanum {width n : Nat} : ∀ c ∈ hexPadded width n, c.isAlphanum = true := by
  induction width generalizing n with
  | zero => exact fun c member => absurd member List.not_mem_nil
  | succ width ih =>
      intro c member
      rw [hexPadded, List.mem_append, List.mem_singleton] at member
      rcases member with earlier | rfl
      · exact ih c earlier
      · exact hexDigit_isAlphanum _ (Nat.mod_lt _ (by decide))

theorem wordText_isAlphanum {word : UInt32} :
    ∀ c ∈ Blake3.wordText word, c.isAlphanum = true := by
  intro c member
  simp only [Blake3.wordText, List.mem_append] at member
  rcases member with ((first | second) | third) | fourth
  · exact hexPadded_isAlphanum c first
  · exact hexPadded_isAlphanum c second
  · exact hexPadded_isAlphanum c third
  · exact hexPadded_isAlphanum c fourth

theorem hash_isAlphanum {bytes : List UInt8} : ∀ c ∈ Blake3.hash bytes, c.isAlphanum = true := by
  intro c member
  rw [Blake3.hash, List.mem_flatMap] at member
  obtain ⟨word, _, inside⟩ := member
  exact wordText_isAlphanum c inside

theorem length_hexPadded (width n : Nat) : (hexPadded width n).length = width := by
  induction width generalizing n with
  | zero => rfl
  | succ width ih => rw [hexPadded, List.length_append, ih, List.length_singleton]

theorem length_hash (bytes : List UInt8) : (Blake3.hash bytes).length = 64 := by
  have each (word : UInt32) : (Blake3.wordText word).length = 8 := by
    simp only [Blake3.wordText, List.length_append, length_hexPadded]
  rw [Blake3.hash, List.length_flatMap]
  simp only [each, List.map_const', List.sum_replicate_nat, Vector.length_toList]

theorem isName_mirrorName (address : String) : Path.IsName (mirrorName address) := by
  have letters : ∀ c ∈ (mirrorName address).toList, c.isAlphanum = true := by
    rw [mirrorName, String.toList_ofList]
    exact hash_isAlphanum
  have long : (mirrorName address).toList.length = 64 := by
    rw [mirrorName, String.toList_ofList, length_hash]
  refine ⟨Path.part?_eq_some_name_iff.mpr ⟨rfl, ?_, ?_, ?_⟩, ?_⟩
  · intro empty
    rw [empty] at long
    cases long
  · intro point
    rw [point] at long
    cases long
  · intro points
    rw [points] at long
    cases long
  · intro slash
    exact absurd (letters _ slash) (by decide)

/-- There is no mirror of a location once its directory was removed. -/
theorem hasDirectory_removeMirror (options : Options) (location : String) (files : FileTree) :
    (files.removeDirectory (mirrorPath options location)).hasDirectory
      (mirrorPath options location) = false :=
  FileTree.hasDirectory_removeDirectory (Path.getLast?_steps_join _ (isName_mirrorName _))

end SourceRecipe.Git
