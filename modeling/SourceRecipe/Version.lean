import SourceRecipe.Time.Instant
import SourceRecipe.Text.Phrase

/-!
# Version templates

A template may hold `{time}`, which stands for the start of the build, `{revno}`, which stands
for the revision number of the base branch, and `{revno:name}`, which stands for that of the
branch with this nickname.
-/

namespace SourceRecipe.Version

open SourceRecipe.Text SourceRecipe.Time

def timePlaceholder : List Char := "\x7btime\x7d".toList

/-- What a placeholder for the revision number of a nicknamed branch starts with. -/
def revnoLead : List Char := "\x7brevno:".toList

/-- The placeholder of a revision number: that of the base, or of a nicknamed branch. -/
def revnoPlaceholder : Option String → List Char
  | none => "\x7brevno\x7d".toList
  | some nickname => revnoLead ++ nickname.toList ++ ['\x7d']

def substituteTime (start : Instant) (template : List Char) : List Char :=
  replace timePlaceholder start.stamp template

def needsRevno (nickname : Option String) (template : List Char) : Bool :=
  occursIn (revnoPlaceholder nickname) template

def substituteRevno (nickname : Option String) (revno : Nat) (template : List Char) : List Char :=
  replace (revnoPlaceholder nickname) (numeral revno) template

/-- The first placeholder of a template: from an opening brace to the next closing one, or to
the end of the text. -/
def firstPlaceholder? (template : List Char) : Option (List Char) :=
  match template.dropWhile (· != '\x7b') with
  | [] => none
  | rest =>
      match cutFirst? '\x7d' rest with
      | some (inside, _) => some (inside ++ ['\x7d'])
      | none => some rest

/-- The nickname in a placeholder of the form `{revno:name}`. -/
def placeholderNickname? (placeholder : List Char) : Option (List Char) :=
  match dropLead? revnoLead placeholder with
  | none => none
  | some rest => if rest.getLast? = some '\x7d' then some rest.dropLast else none

theorem eq_of_firstPlaceholder? {template placeholder : List Char}
    (first : firstPlaceholder? template = some placeholder) :
    ∃ before after, template = before ++ placeholder ++ after ∧ '\x7b' ∉ before ∧
      placeholder.head? = some '\x7b' := by
  have whole : template.takeWhile (· != '\x7b') ++ template.dropWhile (· != '\x7b') = template :=
    List.takeWhile_append_dropWhile
  have clear : '\x7b' ∉ template.takeWhile (· != '\x7b') := fun h => by
    simpa using List.all_eq_true.1 List.all_takeWhile _ h
  unfold firstPlaceholder? at first
  cases rest : template.dropWhile (· != '\x7b') with
  | nil => simp [rest] at first
  | cons c tail =>
      have lead : c = '\x7b' := by
        have := List.head?_dropWhile_not (· != '\x7b') template
        simpa [rest] using this
      subst lead
      simp only [rest] at first whole
      cases cut : cutFirst? '\x7d' ('\x7b' :: tail) with
      | none =>
          simp only [cut, Option.some.injEq] at first
          exact ⟨_, [], by rw [← first, List.append_nil, whole], clear, by simp [← first]⟩
      | some pieces =>
          obtain ⟨inside, after⟩ := pieces
          simp only [cut, Option.some.injEq] at first
          have joined : inside ++ ['\x7d'] ++ after = '\x7b' :: tail :=
            append_of_cutFirst? cut
          refine ⟨_, after, ?_, clear, ?_⟩
          · rw [← first, List.append_assoc, joined, whole]
          · rw [← first]
            cases inside with
            | nil => simp at joined
            | cons d others =>
                simp only [List.cons_append, List.cons.injEq] at joined
                simp [joined.1]

theorem eq_of_placeholderNickname? {placeholder nickname : List Char}
    (named : placeholderNickname? placeholder = some nickname) :
    placeholder = revnoPlaceholder (some (String.ofList nickname)) := by
  unfold placeholderNickname? at named
  split at named
  · cases named
  · rename_i rest lead
    split at named
    · rename_i last
      cases named
      obtain ⟨inside, rfl⟩ := List.getLast?_eq_some_iff.1 last
      have name : (String.ofList (inside ++ ['\x7d']).dropLast).toList = inside := by
        rw [List.dropLast_concat, String.toList_ofList]
      change placeholder = revnoLead ++ (String.ofList _).toList ++ ['\x7d']
      rw [name, List.append_assoc]
      exact eq_of_dropLead? lead
    · cases named

/-- Every replacement of a first placeholder leaves fewer opening braces. -/
theorem count_substituteRevno_lt {template placeholder nickname : List Char} (revno : Nat)
    (first : firstPlaceholder? template = some placeholder)
    (named : placeholderNickname? placeholder = some nickname) :
    (substituteRevno (some (String.ofList nickname)) revno template).count '\x7b' <
      template.count '\x7b' := by
  obtain ⟨before, after, rfl, clear, leads⟩ := eq_of_firstPlaceholder? first
  unfold substituteRevno
  rw [← eq_of_placeholderNickname? named]
  exact count_replace_lt _ _ _ _ _ (count_numeral (by decide)) clear leads

end SourceRecipe.Version
