/-!
# Phrases in a text

Finding and replacing a phrase, and cutting a text at a phrase, on lists of characters.
Occurrences are taken from left to right and do not overlap.
-/

namespace SourceRecipe.Text

def occursIn (phrase : List Char) : List Char → Bool
  | [] => phrase.isEmpty
  | c :: rest => phrase.isPrefixOf (c :: rest) || occursIn phrase rest

/-- The text with every occurrence of a non-empty `phrase` replaced.  `skip` counts the
characters of an occurrence that are still to be passed over. -/
def replaceFrom (phrase substitute : List Char) : Nat → List Char → List Char
  | _, [] => []
  | skip + 1, _ :: rest => replaceFrom phrase substitute skip rest
  | 0, c :: rest =>
      if phrase.isPrefixOf (c :: rest) then
        substitute ++ replaceFrom phrase substitute (phrase.length - 1) rest
      else c :: replaceFrom phrase substitute 0 rest

/-- The text with every occurrence of a non-empty `phrase` replaced by `substitute`. -/
def replace (phrase substitute text : List Char) : List Char :=
  replaceFrom phrase substitute 0 text

/-- Replacing never adds a character that the substitute does not have. -/
theorem count_replaceFrom_le (c : Char) (phrase substitute : List Char)
    (absent : substitute.count c = 0) (skip : Nat) (text : List Char) :
    (replaceFrom phrase substitute skip text).count c ≤ text.count c := by
  induction text generalizing skip with
  | nil => cases skip <;> simp [replaceFrom]
  | cons d rest ih =>
      cases skip with
      | succ skip =>
          simp only [replaceFrom]
          exact Nat.le_trans (ih skip) List.count_le_count_cons
      | zero =>
          simp only [replaceFrom]
          split
          · rw [List.count_append, absent, Nat.zero_add]
            exact Nat.le_trans (ih _) List.count_le_count_cons
          · simp only [List.count_cons]
            have := ih 0
            omega

/-- Replacing a phrase at its place takes away the character it begins with. -/
theorem count_replace_lt (c : Char) (phrase substitute before after : List Char)
    (absent : substitute.count c = 0) (clear : c ∉ before) (leads : phrase.head? = some c) :
    (replace phrase substitute (before ++ phrase ++ after)).count c <
      (before ++ phrase ++ after).count c := by
  unfold replace
  obtain ⟨others, rfl⟩ : ∃ others, phrase = c :: others := by
    cases phrase with
    | nil => simp at leads
    | cons d others => exact ⟨others, by simpa using leads⟩
  induction before with
  | nil =>
      have here : (c :: others).isPrefixOf (c :: (others ++ after)) = true := by
        rw [List.isPrefixOf_iff_prefix]
        exact ⟨after, rfl⟩
      simp only [List.nil_append, List.cons_append, replaceFrom, here, ↓reduceIte,
        List.count_append, absent, Nat.zero_add, List.count_cons_self]
      have := count_replaceFrom_le c (c :: others) substitute absent others.length
        (others ++ after)
      simp only [List.count_append, List.length_cons, Nat.add_sub_cancel] at this ⊢
      omega
  | cons d before ih =>
      have differs : c ≠ d := fun h => clear (h ▸ List.mem_cons_self)
      have rest := ih fun h => clear (List.mem_cons_of_mem _ h)
      have away : (c :: others).isPrefixOf (d :: (before ++ (c :: others) ++ after)) = false := by
        simp [List.isPrefixOf, differs]
      simp only [List.cons_append, replaceFrom, away, Bool.false_eq_true, ↓reduceIte,
        List.count_cons] at rest ⊢
      omega

def dropLead? : (lead text : List Char) → Option (List Char)
  | [], text => some text
  | c :: lead, d :: text => if c = d then dropLead? lead text else none
  | _ :: _, [] => none

theorem eq_of_dropLead? {lead text rest : List Char} (dropped : dropLead? lead text = some rest) :
    text = lead ++ rest := by
  induction lead generalizing text with
  | nil => simpa [dropLead?] using dropped
  | cons c lead ih =>
      cases text with
      | nil => simp [dropLead?] at dropped
      | cons d text =>
          simp only [dropLead?] at dropped
          split at dropped
          · rename_i same
            rw [List.cons_append, ← ih dropped, same]
          · cases dropped

def cutFirst? (separator : Char) (text : List Char) : Option (List Char × List Char) :=
  match text.dropWhile (· != separator) with
  | [] => none
  | _ :: rest => some (text.takeWhile (· != separator), rest)

theorem append_of_cutFirst? {separator : Char} {text before after : List Char}
    (cut : cutFirst? separator text = some (before, after)) :
    before ++ [separator] ++ after = text := by
  unfold cutFirst? at cut
  cases rest : text.dropWhile (· != separator) with
  | nil => simp [rest] at cut
  | cons c tail =>
      have here : c = separator := by
        have := List.head?_dropWhile_not (· != separator) text
        simpa [rest] using this
      simp only [rest, Option.some.injEq, Prod.mk.injEq] at cut
      obtain ⟨rfl, rfl⟩ := cut
      subst c
      rw [List.append_assoc, List.singleton_append, ← rest, List.takeWhile_append_dropWhile]

def cutLast? (separator : Char) (text : List Char) : Option (List Char × List Char) :=
  (cutFirst? separator text.reverse).map fun (after, before) => (before.reverse, after.reverse)

def cutPhrase? (phrase : List Char) : List Char → Option (List Char × List Char)
  | [] => none
  | c :: rest =>
      match dropLead? phrase (c :: rest) with
      | some after => some ([], after)
      | none => (cutPhrase? phrase rest).map fun (before, after) => (c :: before, after)

def join (separator : List Char) : List (List Char) → List Char
  | [] => []
  | [single] => single
  | first :: others => first ++ separator ++ join separator others

end SourceRecipe.Text
