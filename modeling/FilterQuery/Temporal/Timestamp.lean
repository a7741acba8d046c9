import FilterQuery.Temporal.Reading

/-!
# Timestamps of the Internet

A timestamp has a date, any one ASCII character, a time of day, and the offset of
that time from UTC: `2024-02-29T12:00:00.5+01:00`.  The second 60 is a leap second; it
can only be the last of a month in UTC, and stands for the last nanosecond before
the next month.
-/

namespace FilterQuery.Temporal

/-- Takes a given character off a text. -/
def readChar (c : Char) : List Char → Option (List Char)
  | first :: rest => if first = c then some rest else none
  | [] => none

/-- Takes the character between a date and a time off a text; any ASCII character
will do. -/
def readDelimiter : List Char → Option (List Char)
  | c :: rest => if c.toNat < 128 then some rest else none
  | [] => none

/-- Reads a number of two digits with an upper bound. -/
def readTwo (upper : Nat) (text : List Char) : Option (Nat × List Char) := do
  let (n, rest) ← readNumber 2 2 text
  if n ≤ upper then some (n, rest) else none

/-- Reads the offset at the end of a timestamp, in seconds. -/
def readOffset? : List Char → Option Int
  | ['Z'] | ['z'] => some 0
  | text => do
      let (negative, rest) ← Number.readSign? text
      let (hours, rest) ← readTwo 23 rest
      let (minutes, rest) ← readTwo 59 (← readChar ':' rest)
      guard rest.isEmpty
      let seconds : Int := hours * 3600 + minutes * 60
      pure (if negative then -seconds else seconds)

/-- Reads the nanoseconds behind a point, if there is one. -/
def readFraction : List Char → Option (Nat × List Char)
  | '.' :: text => do
      let (digits, rest) ← readDigits 1 text.length text
      pure (fractionNanos digits, rest)
  | text => some (0, text)

/-- Whether a second, counted in UTC, is the last one of a month.  The month is the
given one or one next to it, as an offset is shorter than a day. -/
def isLastOfMonth (year : Int) (month : Nat) (second : Int) : Bool :=
  match dayOfDate? year month 1, monthLength? year month with
  | some first, some length =>
      second + 1 = first * secondsPerDay || second + 1 = (first + length) * secondsPerDay
  | _, _ => false

/-- The instant of a timestamp. -/
def timestamp? (text : List Char) : Option Int := do
  let (year, text) ← readNumber 4 4 text
  let (month, text) ← readNumber 2 2 (← readChar '-' text)
  let (dayOfMonth, text) ← readNumber 2 2 (← readChar '-' text)
  let day ← dayOfDate? year month dayOfMonth
  let (hour, text) ← readTwo 23 (← readDelimiter text)
  let (minute, text) ← readTwo 59 (← readChar ':' text)
  let (second, text) ← readTwo 60 (← readChar ':' text)
  let (nanos, text) ← readFraction text
  let offset ← readOffset? text
  let clock : Int := hour * 3600 + minute * 60 - offset
  if second < 60 then pure (instant day (clock + second) nanos)
  else do
    guard (isLastOfMonth year month (day * secondsPerDay + (clock + 59)))
    pure (instant day (clock + 59) (nanosPerSecond - 1))

end FilterQuery.Temporal
