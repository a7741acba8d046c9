/-!
# The calendar

Days of the Gregorian calendar, counted from the first of January 1970, and
instants, counted in nanoseconds from the start of that day in UTC.  The calendar
is carried back before its introduction; the year zero precedes the year one.
-/

namespace FilterQuery.Temporal

def isLeapYear (year : Int) : Bool :=
  year % 4 = 0 && (year % 100 ≠ 0 || year % 400 = 0)

/-- The lengths of the months of a year. -/
def monthLengths (year : Int) : List Nat :=
  [31, if isLeapYear year then 29 else 28, 31, 30, 31, 30, 31, 31, 30, 31, 30, 31]

/-- The number of days in some months together. -/
def totalLength (months : List Nat) : Nat :=
  months.foldr (· + ·) 0

/-- The number of days in a year. -/
def yearLength (year : Int) : Nat :=
  if isLeapYear year then 366 else 365

/-- The first day of a year.  Each year has 365 days and a leap day for each
leap year before it; the first of January of the year one is day -719162. -/
def firstDay (year : Int) : Int :=
  let past := year - 1
  365 * past + past / 4 - past / 100 + past / 400 - 719162

/-- The length of a month, if there is such a month. -/
def monthLength? (year : Int) (month : Nat) : Option Nat :=
  match month with
  | 0 => none
  | before + 1 => (monthLengths year)[before]?

/-- The day of a year, month and day of the month. -/
def dayOfDate? (year : Int) (month day : Nat) : Option Int := do
  let length ← monthLength? year month
  if 1 ≤ day ∧ day ≤ length then
    some (firstDay year + totalLength ((monthLengths year).take (month - 1)) + (day - 1))
  else none

/-- The day of a year and day of the year. -/
def dayOfOrdinal? (year : Int) (ordinal : Nat) : Option Int :=
  if 1 ≤ ordinal ∧ ordinal ≤ yearLength year then some (firstDay year + (ordinal - 1)) else none

/-- The day of the week, counted from Monday as the zeroth.  The year 1970 started on a
Thursday. -/
def weekdayOf (day : Int) : Int :=
  (day + 3) % 7

/-- The first day on which the week-based calendar has a year: the Monday of the week with
the fourth of January. -/
def firstWeekDay (year : Int) : Int :=
  let fourth := firstDay year + 3
  fourth - weekdayOf fourth

/-- The day of a year, week and day of the week in the week-based calendar. -/
def dayOfWeekDate? (year : Int) (week weekday : Nat) : Option Int :=
  let monday := firstWeekDay year + 7 * (week - 1)
  if 1 ≤ week ∧ monday < firstWeekDay (year + 1) then some (monday + weekday) else none

/-- The day of a year, week and day of the week, where weeks start with a given day of the
week.  The first one is the first that lies in the year, and the days in front of it
are those of the week zero. -/
def dayOfYearWeek? (year : Int) (week start weekday : Nat) : Option Int :=
  let firstWeek := firstDay year + (start - weekdayOf (firstDay year)) % 7
  let day := firstWeek + 7 * (week - 1) + (weekday + 7 - start : Nat) % 7
  if firstDay year ≤ day ∧ day < firstDay (year + 1) then some day else none

/-- The number of nanoseconds in a second. -/
def nanosPerSecond : Nat := 1000000000

/-- The number of seconds in a day. -/
def secondsPerDay : Nat := 86400

/-- The instant of a day, a second of the day, and nanoseconds. -/
def instant (day : Int) (second : Int) (nanos : Nat) : Int :=
  (day * secondsPerDay + second) * nanosPerSecond + nanos

/-- Years have their lengths: the next year starts when a year is over. -/
theorem firstDay_succ (year : Int) : firstDay (year + 1) = firstDay year + yearLength year := by
  by_cases h : isLeapYear year <;> simp [firstDay, yearLength, h] <;>
    simp [isLeapYear] at h <;> omega

/-- The lengths of the months add up to the length of the year. -/
theorem totalLength_monthLengths (year : Int) :
    totalLength (monthLengths year) = yearLength year := by
  by_cases h : isLeapYear year <;> simp [totalLength, monthLengths, yearLength, h]

/-- Years of the week-based calendar start on Mondays. -/
theorem weekdayOf_firstWeekDay (year : Int) : weekdayOf (firstWeekDay year) = 0 := by
  simp only [weekdayOf, firstWeekDay]
  omega

/-- A date of the week-based calendar is on its day of the week. -/
theorem weekdayOf_of_dayOfWeekDate? {year day : Int} {week weekday : Nat} (h : weekday < 7)
    (found : dayOfWeekDate? year week weekday = some day) : weekdayOf day = weekday := by
  have monday := weekdayOf_firstWeekDay year
  rw [dayOfWeekDate?, Option.ite_none_right_eq_some] at found
  obtain ⟨-, ⟨⟩⟩ := found
  simp only [weekdayOf] at monday ⊢
  omega

/-- So is a date of a week that is counted from a day of the week. -/
theorem weekdayOf_of_dayOfYearWeek? {year day : Int} {week start weekday : Nat} (hstart : start < 7)
    (h : weekday < 7) (found : dayOfYearWeek? year week start weekday = some day) :
    weekdayOf day = weekday := by
  rw [dayOfYearWeek?, Option.ite_none_right_eq_some] at found
  obtain ⟨-, ⟨⟩⟩ := found
  simp only [weekdayOf]
  omega

end FilterQuery.Temporal
