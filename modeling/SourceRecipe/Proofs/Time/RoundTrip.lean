import SourceRecipe.Time.Reading
import SourceRecipe.Proofs.Text.Tokens
import SourceRecipe.Proofs.Time.Calendar

/-!
# Instants from their text

The text of an instant is read back as the instant it was written for.  A day alone is no instant
in the form of RFC 3339 and no date and time, so the third reader gets it; every other text is in
the form of RFC 3339, which the first reader takes.
-/

namespace SourceRecipe.Time

open SourceRecipe.Text

/-- A reader goes on with what its first part has read. -/
theorem bind_of_some {α β : Type} {part : Option α} {a : α} {rest : α → Option β}
    (read : part = some a) : (part >>= rest) = rest a := by
  rw [read]
  rfl

/-! ## Numbers -/

/-- Digits are read up to their end, which is the largest number of them or something else. -/
theorem readNumber_append {least most : Nat} {digits rest : List Char}
    (allDigits : ∀ c ∈ digits, c.isDigit = true) (enough : least ≤ digits.length)
    (few : digits.length ≤ most)
    (ends : digits.length = most ∨ ∀ c ∈ rest.head?, c.isDigit = false) :
    readNumber least most (digits ++ rest) = some (digitsValue digits, rest) := by
  have taken : ((digits ++ rest).take most).takeWhile Char.isDigit = digits := by
    rw [List.take_append, List.take_of_length_le few]
    apply takeWhile_append_of_ends allDigits
    rcases ends with full | other
    · rw [full, Nat.sub_self, List.take_zero]
      simp
    · cases most - digits.length with
      | zero => simp
      | succ more =>
          cases rest with
          | nil => simp
          | cons c others => exact other
  rw [readNumber, taken, if_neg (Nat.not_lt.mpr enough), List.drop_left]

/-- A padded number is read back where there is no room for more digits, or no further digit. -/
theorem readNumber_padded {least most width n : Nat} {rest : List Char} (some : 0 < width)
    (small : n < 10 ^ width) (enough : least ≤ width) (few : width ≤ most)
    (ends : width = most ∨ ∀ c ∈ rest.head?, c.isDigit = false) :
    readNumber least most (padded width n ++ rest) = .some (n, rest) := by
  have length := length_padded_of_lt some small
  rw [← length] at enough few ends
  rw [readNumber_append (fun _ => isDigit_of_mem_padded) enough few ends, digitsValue_padded]

theorem readNumber_two {n : Nat} (small : n < 100) (rest : List Char) :
    readNumber 2 2 (padded 2 n ++ rest) = some (n, rest) :=
  readNumber_padded (by decide) small (by decide) (by decide) (.inl rfl)

theorem readMark_cons (mark : Char) (rest : List Char) :
    readMark mark (mark :: rest) = some rest :=
  if_pos rfl

theorem isSpace_eq_false_of_isDigit {c : Char} (digit : c.isDigit = true) : isSpace c = false := by
  obtain ⟨low, high⟩ := isDigit_iff.mp digit
  simp only [isSpace, Bool.or_eq_false_iff, Bool.and_eq_false_iff, decide_eq_false_iff_not,
    beq_eq_false_iff_ne]
  omega

/-- A text that begins with a padded number begins with a digit. -/
theorem isDigit_of_padded_append {width n : Nat} {rest others : List Char} {c : Char}
    (begins : padded width n ++ rest = c :: others) : c.isDigit = true := by
  cases whole : padded width n with
  | nil => exact absurd whole (padded_ne_nil width n)
  | cons d digits =>
      have member : d ∈ padded width n := by
        rw [whole]
        exact List.mem_cons_self
      rw [whole] at begins
      obtain ⟨rfl, -⟩ := List.cons.inj begins
      exact isDigit_of_mem_padded member

theorem trimStart_of_head {c : Char} (rest : List Char) (dark : isSpace c = false) :
    trimStart (c :: rest) = c :: rest :=
  List.dropWhile_cons_of_neg (by rw [dark]; exact Bool.false_ne_true)

/-- A text that begins with a padded number has no white space to trim. -/
theorem trimStart_padded (width n : Nat) (rest : List Char) :
    trimStart (padded width n ++ rest) = padded width n ++ rest := by
  cases begins : padded width n ++ rest with
  | nil => rfl
  | cons c others =>
      exact trimStart_of_head others
        (isSpace_eq_false_of_isDigit (isDigit_of_padded_append begins))

theorem readPart_padded {n : Nat} (small : n < 100) (rest : List Char) :
    readPart (padded 2 n ++ rest) = some (n, rest) := by
  rw [readPart, trimStart_padded]
  exact readNumber_padded (by decide) small (by decide) (by decide) (.inl rfl)

/-! ## Dates -/

/-- A year is read back with the mark after it: one of four digits by its length, one with a sign
by that mark. -/
theorem readYear_yearText (year : Int) (rest : List Char) :
    readYear (yearText year ++ '-' :: rest) = some (year, '-' :: rest) := by
  have signed (n : Nat) : readNumber 1 (padded 4 n ++ '-' :: rest).length
      (padded 4 n ++ '-' :: rest) = some (n, '-' :: rest) := by
    rw [readNumber_append (fun _ => isDigit_of_mem_padded) ?_ ?_ (.inr ?_), digitsValue_padded]
    · exact List.length_pos_iff.mpr (padded_ne_nil 4 n)
    · rw [List.length_append]
      exact Nat.le_add_right _ _
    · simp
  rw [yearText]
  by_cases four : 0 ≤ year ∧ year ≤ 9999
  · have read : readNumber 1 4 (padded 4 year.toNat ++ '-' :: rest) =
        some (year.toNat, '-' :: rest) :=
      readNumber_padded (by decide) (by omega) (by decide) (by decide) (.inl rfl)
    rw [if_pos four, readYear, trimStart_padded]
    split
    · rename_i begins
      exact absurd (isDigit_of_padded_append begins) (by decide)
    · rename_i begins
      exact absurd (isDigit_of_padded_append begins) (by decide)
    · rw [read]
      simp only [Option.map_some, Option.some.injEq, Prod.mk.injEq, and_true]
      omega
  · rw [if_neg four]
    by_cases negative : year < 0
    · rw [if_pos negative, List.cons_append, readYear, trimStart_of_head _ (by decide)]
      simp only [signed, Option.map_some, Option.some.injEq, Prod.mk.injEq, and_true]
      omega
    · rw [if_neg negative, List.cons_append, readYear, trimStart_of_head _ (by decide)]
      simp only [signed, Option.map_some, Option.some.injEq, Prod.mk.injEq, and_true]
      omega

/-- A date is read back with what follows it. -/
theorem readDate_text {date : Date} (month : date.month < 100) (day : date.day < 100)
    (rest : List Char) :
    readDate (date.text ++ rest) = some ((date.year, date.month, date.day), rest) := by
  have whole : date.text ++ rest = yearText date.year ++ '-' ::
      (padded 2 date.month ++ '-' :: (padded 2 date.day ++ rest)) := by
    simp only [Date.text, List.append_assoc, List.cons_append]
  rw [whole, readDate, readYear_yearText]
  simp only [Option.bind_eq_bind, Option.bind_some, readMark_cons, readPart_padded month,
    readPart_padded day]

/-! ## Times of day -/

/-- A fraction of a second of up to nine digits is read back. -/
theorem readFraction_padded {width n : Nat} {rest : List Char} (some : 0 < width)
    (small : n < 10 ^ width) (few : width ≤ 9) (ends : ∀ c ∈ rest.head?, c.isDigit = false) :
    readFraction ('.' :: (padded width n ++ rest)) = .some (n * tenTo (9 - width), rest) := by
  have after : rest.dropWhile Char.isDigit = rest :=
    @dropWhile_append_of_ends Char.isDigit [] rest (List.forall_mem_nil _) ends
  have length := length_padded_of_lt some small
  rw [readFraction, readNumber_padded some small (by omega) few (.inr ends)]
  simp only [List.length_append, length, Nat.add_sub_cancel, after]

theorem readFraction_fractionText {nano : Nat} (small : nano < nanosPerSecond)
    (rest : List Char) :
    readFraction (fractionText nano ++ 'Z' :: rest) = some (nano, 'Z' :: rest) := by
  rw [nanosPerSecond] at small
  have ends : ∀ c ∈ ('Z' :: rest).head?, c.isDigit = false := by simp
  rw [fractionText]
  by_cases zero : nano = 0
  · rw [if_pos zero, zero]
    rfl
  rw [if_neg zero]
  by_cases millis : nano % 1000000 = 0
  · have whole : nano / 1000000 * tenTo (9 - 3) = nano :=
      Nat.div_mul_cancel (Nat.dvd_of_mod_eq_zero millis)
    rw [if_pos millis, List.cons_append,
      readFraction_padded (by decide) (by omega) (by decide) ends, whole]
  rw [if_neg millis]
  by_cases micros : nano % 1000 = 0
  · have whole : nano / 1000 * tenTo (9 - 6) = nano :=
      Nat.div_mul_cancel (Nat.dvd_of_mod_eq_zero micros)
    rw [if_pos micros, List.cons_append,
      readFraction_padded (by decide) (by omega) (by decide) ends, whole]
  · rw [if_neg micros, List.cons_append,
      readFraction_padded (by decide) (by omega) (by decide) ends]
    exact congrArg (fun n => some (n, 'Z' :: rest)) (Nat.mul_one nano)

namespace Instant

/-- Whether the date and the clock of an instant tell it: dates may be its day, and its nanoseconds
run past a second only at the last second of a minute.  They may run past any other second too, but
then the clock shows the second after it. -/
structure IsProper (t : Instant) : Prop where
  representable : t.isRepresentable = true
  nano_lt : t.nano < nanosPerSecond ∨ (t.nano < 2 * nanosPerSecond ∧ t.second % 60 = 59)

theorem date_lt (t : Instant) : t.date.month < 100 ∧ t.date.day < 100 :=
  Date.ofDays_lt _

theorem secondOfDay_lt (t : Instant) : t.secondOfDay < 86400 := by
  rw [secondOfDay]
  omega

/-- The clock of an instant is in range. -/
theorem clock_inRange (t : Instant) :
    t.clock.hour < 24 ∧ t.clock.minute < 60 ∧ t.clock.second ≤ 60 := by
  have day := t.secondOfDay_lt
  by_cases within : t.nano < nanosPerSecond
  · simp only [clock, if_pos within]
    exact ⟨by omega, by omega, by omega⟩
  · simp only [clock, if_neg within]
    exact ⟨by omega, by omega, by omega⟩

theorem clock_nano_lt {t : Instant} (proper : t.IsProper) : t.clock.nano < nanosPerSecond := by
  by_cases within : t.nano < nanosPerSecond
  · simp only [clock, if_pos within]
    exact within
  · have leap := proper.nano_lt.resolve_left within
    simp only [clock, if_neg within]
    omega

/-- The date and the clock of an instant say when it is. -/
theorem ofClock_clock {t : Instant} (proper : t.IsProper) : ofClock t.date t.clock 0 = t := by
  rcases t with ⟨second, nano⟩
  rw [ofClock, date, Date.toDays_ofDays, clock]
  by_cases within : nano < nanosPerSecond
  · have usual : ¬ (second % 86400).toNat % 60 = 60 := by omega
    simp only [if_pos within, secondOfDay, if_neg usual, Instant.mk.injEq]
    omega
  · have leap := proper.nano_lt.resolve_left within
    simp only at leap
    have last : (second % 86400).toNat % 60 + 1 = 60 := by omega
    simp only [if_neg within, secondOfDay, if_pos last, Instant.mk.injEq]
    omega

/-! ## Figures -/

theorem isFigure_yearText (year : Int) : ∀ c ∈ yearText year, isFigure c = true := by
  rw [yearText]
  split
  · exact fun c => isFigure_of_mem_padded
  · split
    · exact List.forall_mem_cons.mpr ⟨rfl, fun c => isFigure_of_mem_padded⟩
    · exact List.forall_mem_cons.mpr ⟨rfl, fun c => isFigure_of_mem_padded⟩

theorem isFigure_dateText (date : Date) : ∀ c ∈ date.text, isFigure c = true := by
  simp only [Date.text, List.append_assoc, List.cons_append, List.forall_mem_append,
    List.forall_mem_cons]
  exact ⟨isFigure_yearText date.year, rfl, fun c => isFigure_of_mem_padded, rfl,
    fun c => isFigure_of_mem_padded⟩

theorem isFigure_fractionText (nano : Nat) : ∀ c ∈ fractionText nano, isFigure c = true := by
  have point (width n : Nat) : ∀ c ∈ '.' :: padded width n, isFigure c = true :=
    List.forall_mem_cons.mpr ⟨rfl, fun c => isFigure_of_mem_padded⟩
  rw [fractionText]
  split
  · exact List.forall_mem_nil _
  · split
    · exact point 3 _
    · split
      · exact point 6 _
      · exact point 9 _

theorem isFigure_clockText (clock : Clock) : ∀ c ∈ clock.text, isFigure c = true := by
  simp only [Clock.text, List.append_assoc, List.cons_append, List.forall_mem_append,
    List.forall_mem_cons]
  exact ⟨fun c => isFigure_of_mem_padded, rfl, fun c => isFigure_of_mem_padded, rfl,
    fun c => isFigure_of_mem_padded, isFigure_fractionText clock.nano⟩

/-- The text of an instant has figures only. -/
theorem isFigure_text (t : Instant) : ∀ c ∈ t.text, isFigure c = true := by
  rw [text]
  split
  · exact isFigure_dateText t.date
  · simp only [rfc3339, List.append_assoc, List.cons_append, List.forall_mem_append,
      List.forall_mem_cons]
    exact ⟨isFigure_dateText t.date, rfl, isFigure_clockText t.clock, rfl, List.forall_mem_nil _⟩

/-- The stamp of an instant has figures only. -/
theorem isFigure_stamp (t : Instant) : ∀ c ∈ t.stamp, isFigure c = true := by
  simp only [stamp, List.append_assoc, List.forall_mem_append]
  exact ⟨isFigure_yearText t.date.year, fun c => isFigure_of_mem_padded,
    fun c => isFigure_of_mem_padded, fun c => isFigure_of_mem_padded,
    fun c => isFigure_of_mem_padded⟩

/-! ## Instants -/

/-- The date and the clock of an instant name the instant. -/
theorem instant?_eq_some {t : Instant} (proper : t.IsProper) :
    instant? t.date.year t.date.month t.date.day t.clock.hour t.clock.minute t.clock.second
      t.clock.nano 0 = some t := by
  obtain ⟨first, last⟩ := of_decide_eq_true proper.representable
  have calendar : Date.of? t.date.year t.date.month t.date.day = some t.date :=
    Date.of?_ofDays first last
  have inRange : Clock.of? t.clock.hour t.clock.minute t.clock.second t.clock.nano =
      some t.clock :=
    if_pos t.clock_inRange
  rw [instant?, calendar, inRange, Option.bind_eq_bind, Option.bind_some, Option.bind_eq_bind,
    Option.bind_some, ofClock_clock proper, if_pos ⟨by decide, by decide, proper.representable⟩]

/-- A date in a year of four digits and a time of day are read in the form of RFC 3339. -/
theorem readRfc3339_text {date : Date} {clock : Clock} (four : 0 ≤ date.year ∧ date.year ≤ 9999)
    (month : date.month < 100) (day : date.day < 100) (hour : clock.hour < 100)
    (minute : clock.minute < 100) (second : clock.second < 100)
    (nano : clock.nano < nanosPerSecond) :
    readRfc3339 (date.text ++ 'T' :: clock.text ++ ['Z']) =
      instant? date.year date.month date.day clock.hour clock.minute clock.second clock.nano 0 := by
  have year (rest : List Char) :
      readNumber 4 4 (padded 4 date.year.toNat ++ rest) = some (date.year.toNat, rest) :=
    readNumber_padded (by decide) (by omega) (by decide) (by decide) (.inl rfl)
  have back : ((date.year.toNat : Nat) : Int) = date.year := Int.toNat_of_nonneg four.1
  have whole : date.text ++ 'T' :: clock.text ++ ['Z'] =
      padded 4 date.year.toNat ++ '-' :: (padded 2 date.month ++ '-' :: (padded 2 date.day ++
        'T' :: (padded 2 clock.hour ++ ':' :: (padded 2 clock.minute ++
          ':' :: (padded 2 clock.second ++ (fractionText clock.nano ++ ['Z'])))))) := by
    simp only [Date.text, Clock.text, yearText, if_pos four, List.append_assoc, List.cons_append]
  rw [whole, readRfc3339]
  refine (bind_of_some (year _)).trans ?_
  refine (bind_of_some (readMark_cons '-' _)).trans ?_
  refine (bind_of_some (readNumber_two month _)).trans ?_
  refine (bind_of_some (readMark_cons '-' _)).trans ?_
  refine (bind_of_some (readNumber_two day _)).trans ?_
  -- Of the marks that may stand before the time, the capital letter is tried first.
  refine (if_pos (Or.inl rfl)).trans ?_
  refine (bind_of_some rfl).trans ?_
  refine (bind_of_some (readNumber_two hour _)).trans ?_
  refine (bind_of_some (readMark_cons ':' _)).trans ?_
  refine (bind_of_some (readNumber_two minute _)).trans ?_
  refine (bind_of_some (readMark_cons ':' _)).trans ?_
  refine (bind_of_some (readNumber_two second _)).trans ?_
  refine (bind_of_some (readFraction_fractionText nano [])).trans ?_
  refine (bind_of_some (a := (0, [])) rfl).trans ?_
  simp only [back]
  rfl

/-- An instant in a year of four digits is read back from the form of RFC 3339. -/
theorem readRfc3339_rfc3339 {t : Instant} (proper : t.IsProper)
    (four : 0 ≤ t.date.year ∧ t.date.year ≤ 9999) :
    readRfc3339 (t.rfc3339 ['Z']) = some t := by
  obtain ⟨month, day⟩ := t.date_lt
  obtain ⟨hour, minute, second⟩ := t.clock_inRange
  rw [rfc3339, readRfc3339_text four month day (Nat.lt_trans hour (by decide))
    (Nat.lt_trans minute (by decide)) (Nat.lt_of_le_of_lt second (by decide))
    (clock_nano_lt proper)]
  exact instant?_eq_some proper

/-- A text in the form of RFC 3339 begins with a digit. -/
theorem readRfc3339_of_not_digit {c : Char} (rest : List Char) (notDigit : c.isDigit = false) :
    readRfc3339 (c :: rest) = none := by
  have nothing : ((c :: rest).take 4).takeWhile Char.isDigit = [] := by
    rw [List.take_succ_cons, List.takeWhile_cons_of_neg]
    rw [notDigit]
    exact Bool.false_ne_true
  simp only [readRfc3339, readNumber, nothing]
  rfl

/-- A date in a year that has no four digits begins with a sign, so it cannot begin a text in the
form of RFC 3339. -/
theorem readRfc3339_of_signed_year {date : Date} (signed : ¬(0 ≤ date.year ∧ date.year ≤ 9999))
    (rest : List Char) : readRfc3339 (date.text ++ rest) = none := by
  rw [Date.text, yearText, if_neg signed]
  by_cases negative : date.year < 0
  · rw [if_pos negative]
    exact readRfc3339_of_not_digit _ rfl
  · rw [if_neg negative]
    exact readRfc3339_of_not_digit _ rfl

/-- A day alone is not in the form of RFC 3339. -/
theorem readRfc3339_date {date : Date} (month : date.month < 100) (day : date.day < 100) :
    readRfc3339 date.text = none := by
  by_cases four : 0 ≤ date.year ∧ date.year ≤ 9999
  · have whole : date.text = padded 4 date.year.toNat ++ '-' :: (padded 2 date.month ++
        '-' :: (padded 2 date.day ++ [])) := by
      simp only [Date.text, yearText, if_pos four, List.append_assoc, List.cons_append,
        List.append_nil]
    have year : date.year.toNat < 10 ^ 4 := by omega
    rw [whole, readRfc3339]
    refine (bind_of_some (readNumber_padded (by decide) year (by decide) (by decide)
      (.inl rfl))).trans ?_
    refine (bind_of_some (readMark_cons '-' _)).trans ?_
    refine (bind_of_some (readNumber_two month _)).trans ?_
    refine (bind_of_some (readMark_cons '-' _)).trans ?_
    exact bind_of_some (readNumber_two day [])
  · have alone := readRfc3339_of_signed_year four []
    rwa [List.append_nil] at alone

/-- A day alone is no date and time. -/
theorem readDateTime_date {date : Date} (month : date.month < 100) (day : date.day < 100) :
    readDateTime date.text = none := by
  have alone := readDate_text month day []
  rw [List.append_nil] at alone
  rw [readDateTime, alone]
  rfl

/-- The start of a day is read back from the day. -/
theorem readDay_date {t : Instant} (proper : t.IsProper) (midnight : t.isMidnight = true) :
    readDay t.date.text = some t := by
  obtain ⟨start, whole⟩ := Bool.and_eq_true_iff.mp midnight
  rw [beq_iff_eq] at start whole
  have clock : t.clock = ⟨0, 0, 0, 0⟩ := by
    rw [Instant.clock, if_pos (by rw [whole]; decide), start, whole]
  have named := instant?_eq_some proper
  obtain ⟨month, day⟩ := t.date_lt
  have alone := readDate_text month day []
  rw [List.append_nil] at alone
  rw [clock] at named
  rw [readDay, alone, Option.bind_eq_bind, Option.bind_some, ← named]
  rfl

/-- The text of an instant is read back, if it is the start of a day or its year has four
digits. -/
theorem read_text {t : Instant} (proper : t.IsProper)
    (written : t.isMidnight = true ∨ (0 ≤ t.date.year ∧ t.date.year ≤ 9999)) :
    read t.text = some t := by
  rw [text]
  by_cases midnight : t.isMidnight = true
  · obtain ⟨month, day⟩ := t.date_lt
    rw [if_pos midnight, read, readRfc3339_date month day, readDateTime_date month day,
      readDay_date proper midnight]
    rfl
  · rw [if_neg midnight, read, readRfc3339_rfc3339 proper (written.resolve_left midnight)]
    rfl

/-- An instant with a zone is no date and time, which have none. -/
theorem readDateTime_rfc3339 (t : Instant) {zone : List Char} (some : zone ≠ []) :
    readDateTime (t.rfc3339 zone) = none := by
  obtain ⟨month, day⟩ := t.date_lt
  obtain ⟨hour, minute, second⟩ := t.clock_inRange
  have whole : t.rfc3339 zone = t.date.text ++ 'T' :: (padded 2 t.clock.hour ++
      ':' :: (padded 2 t.clock.minute ++ ':' :: (padded 2 t.clock.second ++
        (fractionText t.clock.nano ++ zone)))) := by
    simp only [rfc3339, Clock.text, List.append_assoc, List.cons_append]
  have left : (fractionText t.clock.nano ++ zone).isEmpty = false :=
    List.isEmpty_eq_false_iff.mpr (List.append_ne_nil_of_right_ne_nil _ some)
  rw [whole, readDateTime]
  refine (bind_of_some (readDate_text month day _)).trans ?_
  refine (bind_of_some (readMark_cons 'T' _)).trans ?_
  refine (bind_of_some (readPart_padded (Nat.lt_trans hour (by decide)) _)).trans ?_
  refine (bind_of_some (readMark_cons ':' _)).trans ?_
  refine (bind_of_some (readPart_padded (Nat.lt_trans minute (by decide)) _)).trans ?_
  refine (bind_of_some (readMark_cons ':' _)).trans ?_
  refine (bind_of_some (readPart_padded (Nat.lt_of_le_of_lt second (by decide)) _)).trans ?_
  exact if_neg (by rw [left]; exact Bool.false_ne_true)

/-- An instant with a time of day is no day alone. -/
theorem readDay_rfc3339 (t : Instant) (zone : List Char) : readDay (t.rfc3339 zone) = none := by
  obtain ⟨month, day⟩ := t.date_lt
  have whole : t.rfc3339 zone = t.date.text ++ 'T' :: (t.clock.text ++ zone) := by
    simp only [rfc3339, List.append_assoc, List.cons_append]
  rw [whole, readDay]
  refine (bind_of_some (readDate_text month day _)).trans ?_
  exact if_neg Bool.false_ne_true

/-- The text of an instant is read as that instant or not at all, and it is not when it has a time
of day behind a year with a sign. -/
theorem read_text_eq_some_iff {t again : Instant} (proper : t.IsProper) :
    read t.text = some again ↔
      again = t ∧ (t.isMidnight = true ∨ (0 ≤ t.date.year ∧ t.date.year ≤ 9999)) := by
  by_cases written : t.isMidnight = true ∨ (0 ≤ t.date.year ∧ t.date.year ≤ 9999)
  · rw [read_text proper written, Option.some_inj, eq_comm, and_iff_left written]
  · obtain ⟨midnight, signed⟩ := not_or.mp written
    have unread : read t.text = none := by
      have first : readRfc3339 (t.rfc3339 ['Z']) = none := by
        rw [rfc3339, List.append_assoc]
        exact readRfc3339_of_signed_year signed _
      rw [text, if_neg midnight, read, first, readDateTime_rfc3339 t (List.cons_ne_nil _ _),
        readDay_rfc3339]
      rfl
    rw [unread]
    constructor
    · intro impossible
      cases impossible
    · rintro ⟨_, impossible⟩
      exact absurd impossible written

end Instant

end SourceRecipe.Time
