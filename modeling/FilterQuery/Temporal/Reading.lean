import FilterQuery.Number.Whole
import FilterQuery.Temporal.Calendar
import FilterQuery.Temporal.Format

/-!
# Reading dates in a format

A text is read part by part into fields, which are put together at the end: the
day from the year and the day of the year, or month and day, or week and day of the
week, the time from the hour and whatever parts of it are given after the hour.  A
text whose fields give a day but no time stands for the start of that day in UTC.
-/

namespace FilterQuery.Temporal

open FilterQuery.Number

/-! ## Digits and names -/

/-- Takes the digits at the front of a text, at least and at most the given
numbers of them. -/
def readDigits (least most : Nat) (text : List Char) : Option (List Char × List Char) :=
  let digits := (text.take most).takeWhile Char.isDigit
  if least ≤ digits.length then some (digits, text.drop digits.length) else none

/-- Reads a number of at least and at most the given numbers of digits. -/
def readNumber (least most : Nat) (text : List Char) : Option (Nat × List Char) :=
  (readDigits least most text).map fun (digits, rest) => (ofDigits digits, rest)

/-- Reads a number of a width; blanks count for the width where they fill it up. -/
def readPadded (padding : Padding) (width : Nat) (text : List Char) : Option (Nat × List Char) :=
  match padding with
  | .zero => readNumber width width text
  | .none => readNumber 1 width text
  | .space =>
      let blanks := ((text.take (width - 1)).takeWhile (· = ' ')).length
      readNumber (width - blanks) (width - blanks) (text.drop blanks)

/-- Takes a word off a text, with the ASCII letters as written or in either case. -/
def readWord (exactCase : Bool) (word text : List Char) : Option (List Char) :=
  let found := text.take word.length
  let same := if exactCase then found = word
    else Component.folded found = Component.folded word
  if same then some (text.drop word.length) else none

/-- Reads the first of some words that fits and gives its place in the list. -/
def readName (exactCase : Bool) (words : List String) (text : List Char) :
    Option (Nat × List Char) :=
  words.zipIdx.findSome? fun (word, place) =>
    (readWord exactCase word.toList text).map fun rest => (place, rest)

/-- The most digits that a fraction of a second of no given width has. -/
def longestFraction : Nat :=
  32

/-- Nanoseconds from the digits behind the point; digits past the ninth are dropped. -/
def fractionNanos (digits : List Char) : Nat :=
  ofDigits ((digits ++ List.replicate 9 '0').take 9)

def monthNames : List String :=
  ["January", "February", "March", "April", "May", "June", "July", "August", "September",
    "October", "November", "December"]

def weekdayNames : List String :=
  ["Monday", "Tuesday", "Wednesday", "Thursday", "Friday", "Saturday", "Sunday"]

/-- The first three letters of a name. -/
def abbreviation (name : String) : String :=
  String.ofList (name.toList.take 3)

/-! ## Fields -/

/-- The parts of a year that have been read. -/
structure YearFields where
  full : Option Int := none
  century : Option Nat := none
  /-- The last two digits of the year. -/
  lastTwo : Option Nat := none
  /-- Whether the century was written with a minus sign. -/
  beforeZero : Bool := false

/-- The parts of a date and a time that have been read. -/
structure Fields where
  year : YearFields := {}
  /-- The year of the week-based calendar. -/
  weekYear : YearFields := {}
  month : Option Nat := none
  day : Option Nat := none
  ordinal : Option Nat := none
  /-- The week of the week-based calendar. -/
  week : Option Nat := none
  weekFromSunday : Option Nat := none
  weekFromMonday : Option Nat := none
  /-- The day of the week, counted from Monday as the zeroth. -/
  weekday : Option Nat := none
  hour : Option Nat := none
  /-- The hour of half a day, from 1 to 12. -/
  halfDayHour : Option Nat := none
  afternoon : Option Bool := none
  minute : Option Nat := none
  second : Option Nat := none
  nanos : Option Nat := none

/-- What is left of a text once a part has been read into the fields. -/
abbrev Reading := Option (Fields × List Char)

/-- Keeps a number within bounds in the fields. -/
def keep (lower upper : Nat) (number : Option (Nat × List Char)) (field : Nat → Fields) :
    Reading := do
  let (n, rest) ← number
  if lower ≤ n ∧ n ≤ upper then some (field n, rest) else none

/-- Reads a number behind an optional sign; `signed` makes the sign necessary. -/
def readSigned (signed : Bool) (behindSign unsigned : List Char → Option (Nat × List Char))
    (text : List Char) : Option (Bool × Nat × List Char) :=
  match readSign? text with
  | some (negative, rest) => (behindSign rest).map fun number => (negative, number)
  | none => if signed then none else (unsigned text).map fun number => (false, number)

/-- Puts what has been read of a year in its place. -/
def Fields.updateYear (fields : Fields) (weekBased : Bool) (update : YearFields → YearFields) :
    Fields :=
  if weekBased then { fields with weekYear := update fields.weekYear }
  else { fields with year := update fields.year }

/-- The day of the week of a digit, counted from Monday as the zeroth.  Days are numbered
from the given number on, starting with a Monday or with the Sunday before it. -/
def weekdayOfNumber (fromSunday : Bool) (first n : Nat) : Nat :=
  if fromSunday then (n - first + 6) % 7 else n - first

/-- The most digits of a timestamp in a unit. -/
def TimestampUnit.longest : TimestampUnit → Nat
  | .seconds => 14
  | .milliseconds => 17
  | .microseconds => 20
  | .nanoseconds => 23

/-- The number of nanoseconds in a unit. -/
def TimestampUnit.nanos : TimestampUnit → Nat
  | .seconds => 1000000000
  | .milliseconds => 1000000
  | .microseconds => 1000
  | .nanoseconds => 1

/-- Whether an instant lies in a year that can be written with four digits and a sign. -/
def isInRange (nanos : Int) : Bool :=
  instant (firstDay (-9999)) 0 0 ≤ nanos && nanos < instant (firstDay 10000) 0 0

/-- Passes over a number of bytes, which have to be those of whole characters. -/
def dropBytes : List Char → Nat → Option (List Char)
  | text, 0 => some text
  | [], _ + 1 => none
  | c :: rest, count + 1 =>
      if c.utf8Size ≤ count + 1 then dropBytes rest (count + 1 - c.utf8Size) else none

/-- Reads a component into the fields. -/
def readComponent (fields : Fields) (text : List Char) : Component → Reading
  | .year padding .full signed weekBased => do
      let (negative, n, rest) ← readSigned signed (readPadded padding 4) (readPadded padding 4) text
      let full : Int := if negative then -n else n
      pure (fields.updateYear weekBased ({ · with full := some full }), rest)
  | .year padding .century signed weekBased => do
      let (negative, n, rest) ← readSigned signed (readPadded padding 2) (readNumber 1 2) text
      pure (fields.updateYear weekBased
        ({ · with century := some n, beforeZero := negative }), rest)
  | .year padding .lastTwo _ weekBased => do
      let (n, rest) ← readPadded padding 2 text
      pure (fields.updateYear weekBased ({ · with lastTwo := some n }), rest)
  | .month padding .number _ =>
      keep 1 12 (readPadded padding 2 text) fun n => { fields with month := some n }
  | .month _ .long exactCase => do
      let (place, rest) ← readName exactCase monthNames text
      pure ({ fields with month := some (place + 1) }, rest)
  | .month _ .short exactCase => do
      let (place, rest) ← readName exactCase (monthNames.map abbreviation) text
      pure ({ fields with month := some (place + 1) }, rest)
  | .day padding => keep 1 31 (readPadded padding 2 text) fun n => { fields with day := some n }
  | .ordinal padding =>
      keep 1 366 (readPadded padding 3 text) fun n => { fields with ordinal := some n }
  | .hour padding false =>
      keep 0 23 (readPadded padding 2 text) fun n => { fields with hour := some n }
  | .hour padding true =>
      keep 1 12 (readPadded padding 2 text) fun n => { fields with halfDayHour := some n }
  | .minute padding =>
      keep 0 59 (readPadded padding 2 text) fun n => { fields with minute := some n }
  | .second padding =>
      keep 0 60 (readPadded padding 2 text) fun n => { fields with second := some n }
  | .subsecond width => do
      let (digits, rest) ← readDigits (width.getD 1) (width.getD longestFraction) text
      pure ({ fields with nanos := some (fractionNanos digits) }, rest)
  | .period exactUpper => do
      let (place, rest) ← readName exactUpper ["AM", "PM"] text
      pure ({ fields with afternoon := some (place = 1) }, rest)
  | .weekday .long _ exactCase => do
      let (place, rest) ← readName exactCase weekdayNames text
      pure ({ fields with weekday := some place }, rest)
  | .weekday .short _ exactCase => do
      let (place, rest) ← readName exactCase (weekdayNames.map abbreviation) text
      pure ({ fields with weekday := some place }, rest)
  | .weekday form fromOne _ =>
      let first := if fromOne then 1 else 0
      keep first (first + 6) (readNumber 1 1 text) fun n =>
        { fields with weekday := some (weekdayOfNumber (form = .fromSunday) first n) }
  | .weekNumber padding .weekBased =>
      keep 1 53 (readPadded padding 2 text) fun n => { fields with week := some n }
  | .weekNumber padding .fromSunday =>
      keep 0 53 (readPadded padding 2 text) fun n => { fields with weekFromSunday := some n }
  | .weekNumber padding .fromMonday =>
      keep 0 53 (readPadded padding 2 text) fun n => { fields with weekFromMonday := some n }
  | .offsetHour padding signed => do
      let (_, n, rest) ← readSigned signed (readPadded padding 2) (readPadded padding 2) text
      keep 0 23 (some (n, rest)) fun _ => fields
  | .offsetMinute padding => keep 0 59 (readPadded padding 2 text) fun _ => fields
  | .offsetSecond padding => keep 0 59 (readPadded padding 2 text) fun _ => fields
  | .unixTimestamp unit signed => do
      let digits := readNumber 1 unit.longest
      let (negative, n, rest) ← readSigned signed digits digits text
      let nanos : Int := n * unit.nanos
      if isInRange (if negative then -nanos else nanos) then some (fields, rest) else none
  | .ignore bytes => (dropBytes text bytes).map fun rest => (fields, rest)
  | .ending discard => if discard || text.isEmpty then some (fields, []) else none

mutual
/-- Reads an item of a format.  An optional part that does not fit is passed over, and so
is a choice of no formats. -/
def readItem (fields : Fields) (text : List Char) : FormatItem → Reading
  | .literal word => (readWord true word text).map fun rest => (fields, rest)
  | .component component => readComponent fields text component
  | .optional items => some ((readItems fields text items).getD (fields, text))
  | .first alternatives =>
      if alternatives.isEmpty then some (fields, text) else readFirst fields text alternatives

/-- Reads the items of a format in order. -/
def readItems (fields : Fields) (text : List Char) : List FormatItem → Reading
  | [] => some (fields, text)
  | item :: items => do
      let (fields, rest) ← readItem fields text item
      readItems fields rest items

/-- Reads the first of some formats that fits. -/
def readFirst (fields : Fields) (text : List Char) : List (List FormatItem) → Reading
  | [] => none
  | items :: alternatives =>
      (readItems fields text items) <|> readFirst fields text alternatives
end

/-! ## Putting fields together -/

/-- The year, or the one made of a century and the last two digits. -/
def YearFields.year? (fields : YearFields) : Option Int :=
  match fields.full, fields.century, fields.lastTwo with
  | some year, _, _ => some year
  | none, some century, some lastTwo =>
      let year : Int := century * 100 + lastTwo
      some (if fields.beforeZero then -year else year)
  | none, _, _ => none

namespace Fields

/-- The day of the fields.  A day of the year goes before month and day, and these before
week and day of the week. -/
def day? (fields : Fields) : Option Int :=
  match fields.year.year?, fields.ordinal, fields.month, fields.day with
  | some year, some ordinal, _, _ => dayOfOrdinal? year ordinal
  | some year, none, some month, some day => dayOfDate? year month day
  | year?, _, _, _ => do
      let weekday ← fields.weekday
      match fields.weekYear.year?, fields.week, fields.weekFromSunday, fields.weekFromMonday with
      | some year, some week, _, _ => dayOfWeekDate? year week weekday
      | _, _, some week, _ => dayOfYearWeek? (← year?) week 6 weekday
      | _, _, none, some week => dayOfYearWeek? (← year?) week 0 weekday
      | _, _, none, none => none

/-- The hour of the day. -/
def hour? (fields : Fields) : Option Nat :=
  match fields.hour, fields.halfDayHour, fields.afternoon with
  | some hour, _, _ => some hour
  | none, some hour, some afternoon => some (hour % 12 + if afternoon then 12 else 0)
  | none, _, _ => none

/-- The second of the day and the nanoseconds in it.  No part may be left out in
front of one that is given, and a minute has sixty seconds. -/
def time? (fields : Fields) : Option (Nat × Nat) := do
  let hour ← fields.hour?
  match fields.minute, fields.second, fields.nanos with
  | none, none, none => some (hour * 3600, 0)
  | some minute, none, none => some (hour * 3600 + minute * 60, 0)
  | some minute, some second, nanos =>
      if second < 60 then some (hour * 3600 + minute * 60 + second, nanos.getD 0) else none
  | _, _, _ => none

end Fields

/-- The instant of a text in a format.  Fields that give no time stand for the
start of the day. -/
def DateFormat.instant? (format : DateFormat) (text : List Char) : Option Int := do
  let (fields, rest) ← readItems {} text format
  guard rest.isEmpty
  let day ← fields.day?
  let (second, nanos) := fields.time?.getD (0, 0)
  pure (instant day second nanos)

end FilterQuery.Temporal
