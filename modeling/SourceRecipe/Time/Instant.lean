import SourceRecipe.Time.Calendar
import SourceRecipe.Text.Digits

/-!
# Instants

An instant is a number of seconds since the start of 1970 (UTC) and a number of nanoseconds
into that second.  During a leap second the clock stays at second 59 and the nanoseconds go on
past 1 000 000 000.  Instants are written as a day alone when they are its very start, and in
the form of RFC 3339 otherwise.
-/

namespace SourceRecipe.Time

open SourceRecipe.Text

/-- A point in time, in UTC. -/
structure Instant where
  second : Int
  nano : Nat
  deriving DecidableEq, Inhabited

/-- Instants are ordered by their second, then by the nanoseconds into it. -/
def Instant.atOrBefore (a b : Instant) : Bool :=
  decide (a.second < b.second) || (a.second == b.second && decide (a.nano ≤ b.nano))

def Instant.later (a b : Instant) : Instant :=
  if a.atOrBefore b then b else a

/-- The time of day: hour, minute, second and nanoseconds, where 60 is a leap second. -/
structure Clock where
  hour : Nat
  minute : Nat
  second : Nat
  nano : Nat
  deriving DecidableEq

def nanosPerSecond : Nat := 1000000000

def Instant.date (t : Instant) : Date :=
  Date.ofDays (t.second / 86400)

def Instant.isRepresentable (t : Instant) : Bool :=
  decide (firstYear ≤ t.date.year ∧ t.date.year ≤ lastYear)

def Instant.secondOfDay (t : Instant) : Nat :=
  (t.second % 86400).toNat

def Instant.clock (t : Instant) : Clock :=
  let s := t.secondOfDay
  if t.nano < nanosPerSecond then ⟨s / 3600, s / 60 % 60, s % 60, t.nano⟩
  else ⟨s / 3600, s / 60 % 60, s % 60 + 1, t.nano - nanosPerSecond⟩

/-- The instant at which a clock in a zone `offset` seconds east of Greenwich shows this time. -/
def Instant.ofClock (date : Date) (clock : Clock) (offset : Int) : Instant :=
  let leap := if clock.second = 60 then 1 else 0
  let second := clock.hour * 3600 + clock.minute * 60 + (clock.second - leap)
  ⟨date.toDays * 86400 + second - offset, clock.nano + leap * nanosPerSecond⟩

/-- A year has four digits; years outside 0000 to 9999 also have a sign. -/
def yearText (year : Int) : List Char :=
  if 0 ≤ year ∧ year ≤ 9999 then padded 4 year.toNat
  else if year < 0 then '-' :: padded 4 (-year).toNat
  else '+' :: padded 4 year.toNat

def Date.text (date : Date) : List Char :=
  yearText date.year ++ '-' :: padded 2 date.month ++ '-' :: padded 2 date.day

/-- A fraction of a second has no digits, or the three, six or nine digits it needs. -/
def fractionText (nano : Nat) : List Char :=
  if nano = 0 then []
  else if nano % 1000000 = 0 then '.' :: padded 3 (nano / 1000000)
  else if nano % 1000 = 0 then '.' :: padded 6 (nano / 1000)
  else '.' :: padded 9 nano

def Clock.text (clock : Clock) : List Char :=
  padded 2 clock.hour ++ ':' :: padded 2 clock.minute ++ ':' :: padded 2 clock.second ++
    fractionText clock.nano

/-- An instant in the form of RFC 3339, with `zone` standing for UTC. -/
def Instant.rfc3339 (t : Instant) (zone : List Char) : List Char :=
  t.date.text ++ 'T' :: t.clock.text ++ zone

def Instant.isMidnight (t : Instant) : Bool :=
  t.secondOfDay == 0 && t.nano == 0

/-- The text of an instant in a recipe: a day where that says it all, RFC 3339 otherwise. -/
def Instant.text (t : Instant) : List Char :=
  if t.isMidnight then t.date.text else t.rfc3339 ['Z']

/-- The text of an instant in a version: year, month, day, hour and minute without marks. -/
def Instant.stamp (t : Instant) : List Char :=
  yearText t.date.year ++ padded 2 t.date.month ++ padded 2 t.date.day ++
    padded 2 t.clock.hour ++ padded 2 t.clock.minute

end SourceRecipe.Time
