/-!
# Dictionaries

A finite map is a list of keys with their values, in which the first entry of a key counts.
The laws say what a look-up finds after each operation, so that no proof about a user of
dictionaries has to look at the list.
-/

namespace SourceRecipe

structure Dict (κ α : Type) where
  entries : List (κ × α)
  deriving DecidableEq

namespace Dict

variable {κ α : Type} [DecidableEq κ]

def empty : Dict κ α := ⟨[]⟩

instance : Inhabited (Dict κ α) := ⟨empty⟩

def find? (key : κ) : List (κ × α) → Option α
  | [] => none
  | (k, value) :: others => if k = key then some value else find? key others

def get? (dict : Dict κ α) (key : κ) : Option α :=
  find? key dict.entries

def erase (dict : Dict κ α) (key : κ) : Dict κ α :=
  ⟨dict.entries.filter (fun entry => entry.1 ≠ key)⟩

def put (dict : Dict κ α) (key : κ) (value : α) : Dict κ α :=
  ⟨(key, value) :: (dict.erase key).entries⟩

def keys (dict : Dict κ α) : List κ :=
  dict.entries.map (·.1)

@[simp]
theorem get?_empty (key : κ) : (empty : Dict κ α).get? key = none := rfl

theorem find?_filter (key other : κ) (entries : List (κ × α)) :
    find? other (entries.filter (fun entry => entry.1 ≠ key)) =
      if key = other then none else find? other entries := by
  induction entries with
  | nil => simp [find?]
  | cons entry others ih =>
      obtain ⟨k, value⟩ := entry
      by_cases hk : k = key
      · subst hk
        simp only [ne_eq, not_true_eq_false, decide_false, Bool.false_eq_true,
          not_false_eq_true, List.filter_cons_of_neg, find?]
        by_cases ho : k = other <;> simp_all
      · simp only [ne_eq, hk, not_false_eq_true, decide_true, List.filter_cons_of_pos, find?]
        by_cases ho : k = other
        · subst ho
          simp [Ne.symm hk]
        · simp only [ho, ↓reduceIte]
          exact ih

theorem get?_erase (dict : Dict κ α) (key other : κ) :
    (dict.erase key).get? other = if key = other then none else dict.get? other :=
  find?_filter key other dict.entries

theorem get?_put (dict : Dict κ α) (key other : κ) (value : α) :
    (dict.put key value).get? other = if key = other then some value else dict.get? other := by
  change (if key = other then some value else (dict.erase key).get? other) = _
  by_cases same : key = other
  · rw [if_pos same, if_pos same]
  · rw [if_neg same, if_neg same, get?_erase, if_neg same]

@[simp]
theorem get?_put_self (dict : Dict κ α) (key : κ) (value : α) :
    (dict.put key value).get? key = some value := by
  simp [get?_put]

theorem mem_keys_iff {dict : Dict κ α} {key : κ} :
    key ∈ dict.keys ↔ (dict.get? key).isSome := by
  obtain ⟨entries⟩ := dict
  unfold keys get?
  induction entries with
  | nil => simp [find?]
  | cons entry others ih =>
      by_cases h : entry.1 = key
      · simp [find?, h]
      · simp only [List.map_cons, List.mem_cons, find?, h, ↓reduceIte, Ne.symm h, false_or]
        exact ih

end Dict

/-- A list of names with one more in its place in ascending order, unless it is there. -/
def insertName (name : String) : List String → List String
  | [] => [name]
  | first :: others =>
      if name < first then name :: first :: others
      else if name = first then first :: others
      else first :: insertName name others

/-- Names in ascending order, each once. -/
def sortNames (names : List String) : List String :=
  names.foldr insertName []

end SourceRecipe
