import SourceRecipe.Proofs.Time.RoundTrip

/-!
# Instants that are read

Every instant that the reader of dates takes from a text is proper: its day is one that dates may
be, its fraction of a second has nine digits that count, and since zones are whole minutes east of
Greenwich, a leap second stays at the end of its minute.
-/

namespace SourceRecipe.Time

open SourceRecipe.Text

/-! ## Numbers -/

/-- A number that is read is the value of the digits that are taken from the text. -/
theorem readNumber_eq_some {least most n : Nat} {text rest : List Char}
    (read : readNumber least most text = some (n, rest)) :
    ∃ digits, digits.length ≤ most ∧ text = digits ++ rest ∧ n < tenTo digits.length := by
  rw [readNumber] at read
  generalize taken : (text.take most).takeWhile Char.isDigit = digits at read
  have leads : digits <+: text.take most := taken ▸ List.takeWhile_prefix _
  have allDigits : ∀ c ∈ digits, c.isDigit = true :=
    fun c member => of_mem_takeWhile (taken ▸ member)
  split at read
  · cases read
  · cases read
    refine ⟨digits, Nat.le_trans leads.length_le (List.length_take_le most text), ?_, ?_⟩
    · rw [List.prefix_iff_eq_append.mp (leads.trans (List.take_prefix most text))]
    · have bound := digitsValueFrom_lt allDigits 0
      rwa [Nat.zero_add, Nat.one_mul] at bound

/-- A fraction that is read is less than a second. -/
theorem readFraction_lt {nano : Nat} {text rest : List Char}
    (read : readFraction text = some (nano, rest)) : nano < nanosPerSecond := by
  unfold readFraction at read
  split at read
  · rename_i places
    cases number : readNumber 1 9 places with
    | none =>
        rw [number] at read
        cases read
    | some parsed =>
        obtain ⟨value, after⟩ := parsed
        obtain ⟨digits, few, rfl, small⟩ := readNumber_eq_some number
        have width : (digits ++ after).length - after.length = digits.length := by
          rw [List.length_append, Nat.add_sub_cancel]
        rw [number] at read
        simp only [width] at read
        cases read
        calc value * tenTo (9 - digits.length)
            < tenTo digits.length * tenTo (9 - digits.length) :=
              Nat.mul_lt_mul_of_pos_right small (tenTo_pos _)
          _ = tenTo (digits.length + (9 - digits.length)) := (Nat.pow_add 10 _ _).symm
          _ = nanosPerSecond := by rw [Nat.add_sub_cancel' few]; rfl
  · cases read
    decide

/-- Zones are whole minutes east of Greenwich. -/
theorem readZone_minutes {offset : Int} {text rest : List Char}
    (read : readZone .colon text = some (offset, rest)) : offset % 60 = 0 := by
  cases text with
  | nil => cases read
  | cons c others =>
      rw [readZone] at read
      split at read
      · cases read
        rfl
      · split at read
        · simp only [Option.bind_eq_bind, Option.bind_eq_some_iff] at read
          obtain ⟨⟨hours, _⟩, _, _, _, ⟨minutes, _⟩, _, named⟩ := read
          split at named
          · cases named
            split
            · omega
            · omega
          · cases named
        · cases read

/-! ## Instants -/

namespace Instant

/-- A day and a time of day name a proper instant, in a zone of whole minutes. -/
theorem isProper_of_instant? {year offset : Int} {month day hour minute second nano : Nat}
    {t : Instant} (small : nano < nanosPerSecond) (minutes : offset % 60 = 0)
    (named : instant? year month day hour minute second nano offset = some t) : t.IsProper := by
  simp only [instant?, Option.bind_eq_bind, Option.bind_eq_some_iff] at named
  obtain ⟨date, _, clock, inRange, named⟩ := named
  rw [Clock.of?] at inRange
  split at inRange
  · rename_i range
    cases inRange
    split at named
    · rename_i chosen
      cases named
      refine ⟨chosen.2.2, ?_⟩
      rw [ofClock]
      by_cases leap : second = 60
      · simp only [leap, if_true]
        right
        constructor
        · omega
        · omega
      · simp only [leap, if_false, Nat.zero_mul]
        exact .inl small
    · cases named
  · cases inRange

theorem isProper_of_readRfc3339 {text : List Char} {t : Instant}
    (read : readRfc3339 text = some t) : t.IsProper := by
  rw [readRfc3339] at read
  simp only [Option.bind_eq_bind] at read
  obtain ⟨_, _, read⟩ := Option.bind_eq_some_iff.mp read
  obtain ⟨_, _, read⟩ := Option.bind_eq_some_iff.mp read
  obtain ⟨_, _, read⟩ := Option.bind_eq_some_iff.mp read
  obtain ⟨_, _, read⟩ := Option.bind_eq_some_iff.mp read
  obtain ⟨_, _, read⟩ := Option.bind_eq_some_iff.mp read
  split at read
  · split at read
    · simp only [Option.bind_some, Option.bind_eq_some_iff] at read
      obtain ⟨_, _, _, _, _, _, _, _, _, _, ⟨nano, _⟩, fraction, ⟨offset, _⟩, zone, named⟩ := read
      split at named
      · exact isProper_of_instant? (readFraction_lt fraction) (readZone_minutes zone) named
      · cases named
    · cases read
  · cases read

theorem isProper_of_readDateTime {text : List Char} {t : Instant}
    (read : readDateTime text = some t) : t.IsProper := by
  simp only [readDateTime, Option.bind_eq_bind, Option.bind_eq_some_iff] at read
  obtain ⟨_, _, _, _, _, _, _, _, _, _, _, _, _, _, named⟩ := read
  split at named
  · exact isProper_of_instant? (by decide) rfl named
  · cases named

theorem isProper_of_readDay {text : List Char} {t : Instant}
    (read : readDay text = some t) : t.IsProper := by
  simp only [readDay, Option.bind_eq_bind, Option.bind_eq_some_iff] at read
  obtain ⟨_, _, named⟩ := read
  split at named
  · exact isProper_of_instant? (by decide) rfl named
  · cases named

/-- An instant that is read is proper. -/
theorem isProper_of_read {text : List Char} {t : Instant} (read : Instant.read text = some t) :
    t.IsProper := by
  rw [Instant.read, Option.or_eq_some_iff, Option.or_eq_some_iff] at read
  rcases read with read | ⟨_, read | ⟨_, read⟩⟩
  · exact isProper_of_readRfc3339 read
  · exact isProper_of_readDateTime read
  · exact isProper_of_readDay read

end Instant

end SourceRecipe.Time
