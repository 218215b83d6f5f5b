import SourceRecipe.Time.Calendar

/-!
# Days and dates

Every day has one date, which the calendar has, and counting the days up to that date gives the
day back.  Years are counted from the first of March here, so that a leap day is the last day of
its year and a date is told by its year and the day in that year.
-/

namespace SourceRecipe.Time

/-- The date of a day in a year that begins on the first of March. -/
def Date.ofMarchYear (year : Int) (dayOfYear : Nat) : Date :=
  let month := (5 * dayOfYear + 2) / 153
  let day := dayOfYear - (153 * month + 2) / 5 + 1
  if month < 10 then ⟨year, month + 3, day⟩ else ⟨year + 1, month - 9, day⟩

/-- A day in the cycle of the calendar: the centuries, the groups of four years and the years
before it, and the day in its year. -/
structure CycleDay where
  century : Nat
  quad : Nat
  year : Nat
  day : Nat

namespace CycleDay

def yearOfCycle (c : CycleDay) : Nat :=
  c.century * 100 + c.quad * 4 + c.year

def days (c : CycleDay) : Nat :=
  c.century * 36524 + c.quad * 1461 + c.year * 365 + c.day

/-- What holds of the days of a cycle: only the last year of four has a leap day, and of the last
years of centuries only the last one. -/
structure IsProper (c : CycleDay) : Prop where
  century_le : c.century ≤ 3
  quad_le : c.quad ≤ 24
  year_le : c.year ≤ 3
  day_le : c.day ≤ 365
  year_of_leap : c.day = 365 → c.year = 3
  century_of_leap : c.day = 365 → c.quad = 24 → c.century = 3

def ofDay (day : Nat) : CycleDay :=
  let century := min (day / 36524) 3
  let dayOfCentury := day - century * 36524
  let quad := dayOfCentury / 1461
  let dayOfQuad := dayOfCentury - quad * 1461
  let year := min (dayOfQuad / 365) 3
  ⟨century, quad, year, dayOfQuad - year * 365⟩

theorem days_ofDay (day : Nat) : (ofDay day).days = day := by
  simp only [ofDay, days]
  omega

theorem isProper_ofDay {day : Nat} (inCycle : day < 146097) : (ofDay day).IsProper := by
  constructor
  all_goals simp only [ofDay]
  all_goals omega

end CycleDay

/-! ## Dates of a year -/

/-- The days before a year that begins on the first of March. -/
def daysBeforeMarch (year : Int) : Int :=
  year / 400 * 146097 + year % 400 * 365 + year % 400 / 4 - year % 400 / 100 - 719468

namespace Date

theorem daysInMonth_le (year : Int) (month : Nat) : daysInMonth year month ≤ 31 := by
  rw [daysInMonth]
  split
  · split <;> omega
  · split <;> omega

/-- The months begin where the days of a year are counted from. -/
theorem toDays_ofMarchYear (year : Int) {day : Nat} (inYear : day ≤ 365) :
    (ofMarchYear year day).toDays = daysBeforeMarch year + day := by
  rw [ofMarchYear]
  by_cases early : (5 * day + 2) / 153 < 10
  · have month : ((((5 * day + 2) / 153 + 3 : Nat) : Int) + 9) % 12 =
        ((5 * day + 2) / 153 : Nat) := by
      omega
    have later : ¬ ((5 * day + 2) / 153 + 3 ≤ 2) := by omega
    simp only [if_pos early, toDays, if_neg later, month, daysBeforeMarch]
    omega
  · have month : ((((5 * day + 2) / 153 - 9 : Nat) : Int) + 9) % 12 =
        ((5 * day + 2) / 153 : Nat) := by
      omega
    have later : (5 * day + 2) / 153 - 9 ≤ 2 := by omega
    simp only [if_neg early, toDays, if_pos later, month, daysBeforeMarch,
      Int.add_sub_cancel]
    omega

/-- The calendar has the dates of a year, the leap day in leap years only. -/
theorem ofMarchYear_inCalendar (year : Int) {day : Nat} (inYear : day ≤ 365)
    (leap : day = 365 → isLeapYear (year + 1) = true) :
    let date := ofMarchYear year day
    1 ≤ date.month ∧ date.month ≤ 12 ∧ 1 ≤ date.day ∧
      date.day ≤ daysInMonth date.year date.month := by
  rw [ofMarchYear]
  by_cases early : (5 * day + 2) / 153 < 10
  · simp only [if_pos early]
    refine ⟨by omega, by omega, by omega, ?_⟩
    rw [daysInMonth, if_neg (by omega)]
    split
    · omega
    · omega
  · simp only [if_neg early]
    refine ⟨by omega, by omega, by omega, ?_⟩
    rw [daysInMonth]
    by_cases february : (5 * day + 2) / 153 - 9 = 2
    · rw [if_pos february]
      by_cases last : day = 365
      · rw [if_pos (leap last)]
        omega
      · split
        · omega
        · omega
    · rw [if_neg february, if_neg (by omega)]
      omega

/-! ## All days -/

/-- The year, counted from the first of March, that a day lies in, and its day in that year. -/
theorem exists_ofDays_eq (days : Int) :
    ∃ (year : Int) (day : Nat), ofDays days = ofMarchYear year day ∧ day ≤ 365 ∧
      (day = 365 → isLeapYear (year + 1) = true) ∧ daysBeforeMarch year + day = days := by
  have unfolded : ofDays days = ofMarchYear ((days + 719468) / 146097 * 400 +
      (CycleDay.ofDay ((days + 719468) % 146097).toNat).yearOfCycle)
        (CycleDay.ofDay ((days + 719468) % 146097).toNat).day := by
    simp only [CycleDay.ofDay, CycleDay.yearOfCycle, ofDays, ofMarchYear, Int.natCast_add,
      Int.natCast_mul, Int.add_assoc, Int.cast_ofNat_Int]
  have inCycle : ((days + 719468) % 146097).toNat < 146097 := by omega
  have proper := CycleDay.isProper_ofDay inCycle
  have number := CycleDay.days_ofDay ((days + 719468) % 146097).toNat
  -- From here on the day in the cycle is known by its bounds and its number alone.
  generalize CycleDay.ofDay ((days + 719468) % 146097).toNat = c at unfolded proper number
  obtain ⟨century, quad, year, inYear, lastYear, lastCentury⟩ := proper
  refine ⟨_, _, unfolded, inYear, ?_, ?_⟩
  · intro leap
    have four := lastYear leap
    have hundred := lastCentury leap
    rw [isLeapYear, CycleDay.yearOfCycle]
    simp only [Bool.or_eq_true, Bool.and_eq_true, beq_iff_eq, bne_iff_ne]
    omega
  · rw [CycleDay.days] at number
    have inCycle : c.yearOfCycle ≤ 399 := by
      rw [CycleDay.yearOfCycle]
      omega
    have quads : c.yearOfCycle / 4 = c.century * 25 + c.quad := by
      rw [CycleDay.yearOfCycle]
      omega
    have centuries : c.yearOfCycle / 100 = c.century := by
      rw [CycleDay.yearOfCycle]
      omega
    have whole : c.yearOfCycle = c.century * 100 + c.quad * 4 + c.year := rfl
    have cycle : ((days + 719468) / 146097 * 400 + (c.yearOfCycle : Int)) / 400 =
        (days + 719468) / 146097 := by
      omega
    have rest : ((days + 719468) / 146097 * 400 + (c.yearOfCycle : Int)) % 400 =
        c.yearOfCycle := by
      omega
    rw [daysBeforeMarch, cycle, rest]
    omega

/-- Every day is the one that its date stands for. -/
theorem toDays_ofDays (days : Int) : (ofDays days).toDays = days := by
  obtain ⟨year, day, same, inYear, -, number⟩ := exists_ofDays_eq days
  rw [same, toDays_ofMarchYear year inYear, number]

theorem of?_eq_some {date : Date} (first : firstYear ≤ date.year) (last : date.year ≤ lastYear)
    (inYear : 1 ≤ date.month ∧ date.month ≤ 12 ∧ 1 ≤ date.day ∧
      date.day ≤ daysInMonth date.year date.month) :
    of? date.year date.month date.day = some date :=
  if_pos ⟨first, last, inYear⟩

/-- The calendar has the date of every day of the years that dates may have. -/
theorem of?_ofDays {days : Int} (first : firstYear ≤ (ofDays days).year)
    (last : (ofDays days).year ≤ lastYear) :
    of? (ofDays days).year (ofDays days).month (ofDays days).day = some (ofDays days) := by
  obtain ⟨year, day, same, inYear, leap, -⟩ := exists_ofDays_eq days
  have whole := ofMarchYear_inCalendar year inYear leap
  rw [← same] at whole
  exact of?_eq_some first last whole

/-- The date of a day has a month and a day of at most two digits. -/
theorem ofDays_lt (days : Int) : (ofDays days).month < 100 ∧ (ofDays days).day < 100 := by
  obtain ⟨year, day, same, inYear, leap, -⟩ := exists_ofDays_eq days
  have whole := ofMarchYear_inCalendar year inYear leap
  rw [← same] at whole
  obtain ⟨-, months, -, inMonth⟩ := whole
  have longest := daysInMonth_le (ofDays days).year (ofDays days).month
  omega

end Date

end SourceRecipe.Time
