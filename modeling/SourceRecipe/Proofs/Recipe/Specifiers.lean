import SourceRecipe.Proofs.Recipe.RoundTrip
import SourceRecipe.Proofs.Time.Reading

/-!
# Specifiers from their tokens

The token of a specifier that was read is read as that specifier or not at all.  It says too little
where a word was empty, and too much where a time of day stands behind a year that has a sign: such
an instant is read from a text without a zone or moved there by its zone, and written in a form that
has years of four digits only.
-/

namespace SourceRecipe.Specifier

open SourceRecipe.Text SourceRecipe.Time

/-- Whether the token of a specifier stands for it.  The tip has none. -/
def IsSpellable : Specifier → Prop
  | tip => False
  | revision id => id ≠ ""
  | tag name => name ≠ ""
  | date instant =>
      instant.isMidnight = true ∨ (0 ≤ instant.date.year ∧ instant.date.year ≤ 9999)

/-- Whether a specifier is one that may be read from a token: not the tip, and no date that its
clock does not tell. -/
def IsReadable : Specifier → Prop
  | tip => False
  | date instant => instant.IsProper
  | _ => True

theorem isReadable_of_read {token : List Char} {specifier : Specifier}
    (found : read token = .ok specifier) : specifier.IsReadable := by
  rw [read] at found
  split at found
  · split at found
    · cases found
    · cases found
      trivial
  · split at found
    · cases found
    · cases found
      trivial
  · split at found
    · rename_i named
      cases found
      exact Instant.isProper_of_read named
    · cases found
  · cases found
    trivial

/-- A mark with a name behind it stands for what the mark makes of the name, if there is one. -/
theorem unless_empty_eq_ok_iff {error : SpecifierError} {name : String}
    {make : String → Specifier} {again : Specifier} :
    (if name.toList.isEmpty then .error error else .ok (make (String.ofList name.toList))) =
        (.ok again : Except SpecifierError Specifier) ↔
      again = make name ∧ name ≠ "" := by
  by_cases nothing : name = ""
  · subst nothing
    constructor
    · intro impossible
      cases impossible
    · exact fun made => absurd rfl made.2
  · have some : name.toList.isEmpty = false :=
      List.isEmpty_eq_false_iff.mpr (mt String.toList_eq_nil_iff.mp nothing)
    rw [some, if_neg Bool.false_ne_true, String.ofList_toList, Except.ok.injEq, eq_comm,
      and_iff_left nothing]

/-- The token of a specifier is read as the specifier or not at all. -/
theorem read_token_eq_ok_iff {specifier again : Specifier} (readable : specifier.IsReadable)
    {token : List Char} (written : specifier.token? = some token) :
    read token = .ok again ↔ again = specifier ∧ specifier.IsSpellable := by
  cases specifier with
  | tip => cases written
  | revision id =>
      cases written
      rw [read_revisionMark]
      exact unless_empty_eq_ok_iff
  | tag name =>
      cases written
      rw [read_tagMark]
      exact unless_empty_eq_ok_iff
  | date instant =>
      cases written
      rw [read_dateMark]
      constructor
      · intro found
        split at found
        · rename_i other named
          cases found
          obtain ⟨rfl, spellable⟩ := (Instant.read_text_eq_some_iff readable).mp named
          exact ⟨rfl, spellable⟩
        · cases found
      · rintro ⟨rfl, spellable⟩
        rw [Instant.read_text readable spellable]

/-- A specifier that was read has a token, which is read as that specifier and as no other one; and
it is read, unless the token that was given was empty, or the specifier is a date with a time of day
in a year that has a sign. -/
theorem read_token_iff_of_read {token : List Char} {specifier : Specifier}
    (found : read token = .ok specifier) :
    ∃ written, specifier.token? = some written ∧
      ∀ again, read written = .ok again ↔ again = specifier ∧ specifier.IsSpellable := by
  have readable := isReadable_of_read found
  cases written : specifier.token? with
  | some again => exact ⟨again, rfl, fun _ => read_token_eq_ok_iff readable written⟩
  | none =>
      cases specifier with
      | tip => exact readable.elim
      | revision | tag | date => cases written

/-- A date with a leap second and a fraction in a zone that moves it to the day before. -/
theorem read_token_iff_of_read_leapSecond :
    read "date:2017-01-01T05:29:60.25+05:30".toList = .ok (.date ⟨1483228799, 1250000000⟩) ∧
      ∃ written, (date ⟨1483228799, 1250000000⟩).token? = some written ∧
        read written = .ok (.date ⟨1483228799, 1250000000⟩) := by
  have found : read "date:2017-01-01T05:29:60.25+05:30".toList =
      .ok (.date ⟨1483228799, 1250000000⟩) := by decide +kernel
  obtain ⟨written, token, again⟩ := read_token_iff_of_read found
  exact ⟨found, written, token, (again _).mpr ⟨rfl, .inr (by decide +kernel)⟩⟩

/-- A zone may move an instant out of the years of four digits, and then its token is no date; and
an empty word is taken for a revision without an id. -/
theorem token_not_read_of_late_zone :
    (read "date:9999-12-31T23:30:00-01:00".toList = .ok (.date ⟨253402302600, 0⟩) ∧
        (date ⟨253402302600, 0⟩).token? = some "date:+10000-01-01T00:30:00Z".toList ∧
        read "date:+10000-01-01T00:30:00Z".toList =
          .error (.notADate "+10000-01-01T00:30:00Z")) ∧
      read [] = .ok (.revision "") ∧ (revision "").token? = some "revid:".toList ∧
        read "revid:".toList = .error (.emptyRevision "revid:") := by
  decide +kernel

end SourceRecipe.Specifier
