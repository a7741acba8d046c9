import FilterQuery.Number.Whole

/-!
# Components of date formats

A component of a date format stands for one part of a date, of a time of day or of
an offset from UTC, or for text that is no part of any of these.  It is written as a
name with modifiers; names, keys and values are recognised in either case, and of two
modifiers with one key the later one counts.
-/

namespace FilterQuery.Temporal

/-- How a number that is short of its width is filled up. -/
inductive Padding
  | zero
  | space
  | none
  deriving DecidableEq, Repr

/-- Which digits of a year are given. -/
inductive YearPart
  | full
  | century
  | lastTwo
  deriving DecidableEq, Repr

inductive MonthForm
  | number
  | long
  | short
  deriving DecidableEq, Repr

inductive WeekdayForm
  | long
  | short
  /-- A digit for the day, counted from Sunday. -/
  | fromSunday
  /-- A digit for the day, counted from Monday. -/
  | fromMonday
  deriving DecidableEq, Repr

/-- How the weeks of a year are counted. -/
inductive WeekForm
  /-- Weeks of the week-based calendar.  They start on Mondays, and the first one is the
  one with the fourth of January. -/
  | weekBased
  /-- Weeks from the first Sunday of the year, behind a week zero. -/
  | fromSunday
  /-- Weeks from the first Monday of the year, behind a week zero. -/
  | fromMonday
  deriving DecidableEq, Repr

/-- The unit in which the time since the start of 1970 is counted. -/
inductive TimestampUnit
  | seconds
  | milliseconds
  | microseconds
  | nanoseconds
  deriving DecidableEq, Repr

inductive Component
  /-- A year of the calendar or of the week-based calendar. -/
  | year (padding : Padding) (part : YearPart) (signed weekBased : Bool)
  | month (padding : Padding) (form : MonthForm) (exactCase : Bool)
  | day (padding : Padding)
  /-- The day of the year. -/
  | ordinal (padding : Padding)
  | hour (padding : Padding) (halfDay : Bool)
  | minute (padding : Padding)
  | second (padding : Padding)
  /-- The fraction of a second, in the given number of digits or in one digit or more. -/
  | subsecond (width : Option Nat)
  /-- The half of the day. -/
  | period (exactUpper : Bool)
  /-- The day of the week. -/
  | weekday (form : WeekdayForm) (fromOne exactCase : Bool)
  /-- The number of the week in its year. -/
  | weekNumber (padding : Padding) (form : WeekForm)
  /-- The hours of the offset from UTC.  Offsets and timestamps are read but not used. -/
  | offsetHour (padding : Padding) (signed : Bool)
  | offsetMinute (padding : Padding)
  | offsetSecond (padding : Padding)
  /-- The time since the start of 1970 in UTC. -/
  | unixTimestamp (unit : TimestampUnit) (signed : Bool)
  /-- A number of bytes that are passed over. -/
  | ignore (bytes : Nat)
  /-- The end of the text, or of what counts of it. -/
  | ending (discard : Bool)
  deriving DecidableEq, Repr

namespace Component

/-- A text with its ASCII letters in lower case. -/
def folded (text : List Char) : String :=
  String.ofList (text.map Char.toLower)

/-- Modifiers by their keys, both keys and values in lower case. -/
abbrev Modifiers := List (String × String)

/-- The values that a modifier can take. -/
abbrev Choice (α : Type) := List (String × α)

/-- The meaning of a modifier: that of the last one with the key, or else the
default.  Each one with the key has to have a meaning. -/
def meaning? {α : Type} (modifiers : Modifiers) (key : String) (meaning : String → Option α)
    (default : α) : Option α :=
  (modifiers.filter (·.1 = key)).foldlM (fun _ modifier => meaning modifier.2) default

/-- The meaning of a modifier that is one of some choices. -/
def value? {α : Type} (modifiers : Modifiers) (key : String) (choices : Choice α) (default : α) :
    Option α :=
  meaning? modifiers key (choices.lookup ·) default

/-- The meaning of a modifier that has to be there. -/
def required? {α : Type} (modifiers : Modifiers) (key : String) (meaning : String → Option α) :
    Option α := do
  (← meaning? modifiers key (fun text => (meaning text).map some) none)

/-- Whether every modifier has one of the given keys. -/
def haveKeys (modifiers : Modifiers) (keys : List String) : Bool :=
  modifiers.all fun modifier => keys.contains modifier.1

/-! ## Modifiers -/

def paddings : Choice Padding :=
  [("zero", .zero), ("space", .space), ("none", .none)]

def yearParts : Choice YearPart :=
  [("full", .full), ("century", .century), ("last_two", .lastTwo)]

def signs : Choice Bool :=
  [("automatic", false), ("mandatory", true)]

def bases : Choice Bool :=
  [("calendar", false), ("iso_week", true)]

/-- Ranges of years; either one is read with four digits. -/
def ranges : Choice Unit :=
  [("extended", ()), ("standard", ())]

def monthForms : Choice MonthForm :=
  [("numerical", .number), ("long", .long), ("short", .short)]

def weekdayForms : Choice WeekdayForm :=
  [("long", .long), ("short", .short), ("sunday", .fromSunday), ("monday", .fromMonday)]

def truths : Choice Bool :=
  [("true", true), ("false", false)]

def hourForms : Choice Bool :=
  [("24", false), ("12", true)]

def periodCases : Choice Bool :=
  [("upper", true), ("lower", false)]

def subsecondWidths : Choice (Option Nat) :=
  ("1+", none) :: (List.range 9).map fun n => (toString (n + 1), some (n + 1))

def weekForms : Choice WeekForm :=
  [("iso", .weekBased), ("sunday", .fromSunday), ("monday", .fromMonday)]

def timestampUnits : Choice TimestampUnit :=
  [("second", .seconds), ("millisecond", .milliseconds), ("microsecond", .microseconds),
    ("nanosecond", .nanoseconds)]

/-- What becomes of text behind the end. -/
def trailingInputs : Choice Bool :=
  [("prohibit", false), ("discard", true)]

/-- A number of bytes: positive and of 16 bits. -/
def byteCount? (text : String) : Option Nat := do
  let count ← Number.readInt? text.toList
  if 0 < count ∧ count < 65536 then some count.toNat else none

/-- The keys of the modifiers that a component takes. -/
def keys? : String → Option (List String)
  | "year" => some ["padding", "repr", "sign", "base", "range"]
  | "month" => some ["padding", "repr", "case_sensitive"]
  | "hour" => some ["padding", "repr"]
  | "day" | "ordinal" | "minute" | "second" => some ["padding"]
  | "subsecond" => some ["digits"]
  | "period" => some ["case", "case_sensitive"]
  | "weekday" => some ["repr", "one_indexed", "case_sensitive"]
  | "week_number" => some ["padding", "repr"]
  | "offset_hour" => some ["padding", "sign"]
  | "offset_minute" | "offset_second" => some ["padding"]
  | "unix_timestamp" => some ["precision", "sign"]
  | "ignore" => some ["count"]
  | "end" => some ["trailing_input"]
  | _ => none

/-- The component of a name and its modifiers. -/
def ofParts? (name : String) (modifiers : Modifiers) : Option Component := do
  let keys ← keys? name
  guard (haveKeys modifiers keys)
  let padding ← value? modifiers "padding" paddings .zero
  let exactCase ← value? modifiers "case_sensitive" truths true
  let signed ← value? modifiers "sign" signs false
  match name with
  | "year" =>
      let _ ← value? modifiers "range" ranges ()
      pure (.year padding (← value? modifiers "repr" yearParts .full) signed
        (← value? modifiers "base" bases false))
  | "month" => pure (.month padding (← value? modifiers "repr" monthForms .number) exactCase)
  | "day" => pure (.day padding)
  | "ordinal" => pure (.ordinal padding)
  | "hour" => pure (.hour padding (← value? modifiers "repr" hourForms false))
  | "minute" => pure (.minute padding)
  | "second" => pure (.second padding)
  | "subsecond" => pure (.subsecond (← value? modifiers "digits" subsecondWidths none))
  | "period" => pure (.period ((← value? modifiers "case" periodCases true) && exactCase))
  | "weekday" =>
      pure (.weekday (← value? modifiers "repr" weekdayForms .long)
        (← value? modifiers "one_indexed" truths true) exactCase)
  | "week_number" => pure (.weekNumber padding (← value? modifiers "repr" weekForms .weekBased))
  | "offset_hour" => pure (.offsetHour padding signed)
  | "offset_minute" => pure (.offsetMinute padding)
  | "offset_second" => pure (.offsetSecond padding)
  | "unix_timestamp" =>
      pure (.unixTimestamp (← value? modifiers "precision" timestampUnits .seconds) signed)
  | "ignore" => pure (.ignore (← required? modifiers "count" byteCount?))
  | "end" => pure (.ending (← value? modifiers "trailing_input" trailingInputs false))
  | _ => none

end Component

end FilterQuery.Temporal
