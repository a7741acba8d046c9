import FilterQuery.Number.Literal
import FilterQuery.Temporal.Timestamp

/-!
# Bare values of TOML

Truth values, numbers, dates and times are written without quotes.  Each is a
word of letters, digits and a few signs, which no other value can follow
directly, so a word can be judged as a whole.  Only truth values are kept: a
number or a date has to be well formed, but what it stands for is of no use to
any option.
-/

namespace FilterQuery.Toml

open FilterQuery.Number FilterQuery.Temporal

/-- Whether a character may belong to a bare value. -/
def isWordChar (c : Char) : Bool :=
  c.isAlphanum || c = '+' || c = '-' || c = '_' || c = '.' || c = ':'

/-! ## Numbers -/

/-- Whether every underscore stands between two digits and there is a digit. -/
def areSeparatedDigits (isDigit : Char → Bool) : List Char → Bool
  | [] => false
  | [c] => isDigit c
  | c :: '_' :: rest => isDigit c && areSeparatedDigits isDigit rest
  | c :: rest => isDigit c && areSeparatedDigits isDigit rest

/-- The text without underscores. -/
def withoutSeparators (word : List Char) : List Char :=
  word.filter (· ≠ '_')

/-- The text behind an optional sign. -/
def unsigned (word : List Char) : List Char :=
  ((readSign? word).map (·.2)).getD word

/-- Whether digits are those of a decimal number, which has no leading zero. -/
def isDecimalWhole (digits : List Char) : Bool :=
  areSeparatedDigits Char.isDigit digits && (digits.head? ≠ some '0' || digits.length = 1)

/-- The value of a digit of a base up to 16. -/
def baseDigit? (base : Nat) (c : Char) : Option Nat :=
  (hexDigit? c).filter (· < base)

/-- Whether digits of a base stand for a number that fits 64 bits. -/
def isBased (base : Nat) (digits : List Char) : Bool :=
  areSeparatedDigits (fun c => (baseDigit? base c).isSome) digits &&
    (withoutSeparators digits).foldl (fun n c => base * n + (baseDigit? base c).getD 0) 0 <
      wordLimit.toNat

/-- Whether a word is a whole number of 64 bits. -/
def isWhole : List Char → Bool
  | '0' :: 'x' :: digits => isBased 16 digits
  | '0' :: 'o' :: digits => isBased 8 digits
  | '0' :: 'b' :: digits => isBased 2 digits
  | word => isDecimalWhole (unsigned word) && (readInt64? (withoutSeparators word)).isSome

/-- Whether a text is empty or the digits of an exponent behind its mark. -/
def isExponentPart : Option (List Char) → Bool
  | none => true
  | some exponent => areSeparatedDigits Char.isDigit (unsigned exponent)

/-- Whether a word is a real number that is not beyond all finite ones; of those
below them all it is as good as minus infinity. -/
def isReal (word : List Char) : Bool :=
  let (mantissa, exponent) := cutAt isExponentMark (unsigned word)
  let (whole, fraction) := cutAt (· = '.') mantissa
  isDecimalWhole whole && (fraction.isSome || exponent.isSome) &&
    (fraction.map (areSeparatedDigits Char.isDigit)).getD true && isExponentPart exponent &&
    (word.head? = some '-' || (readBinary64? (withoutSeparators word)).isSome)

/-- Whether a word is an infinity or no number. -/
def isSpecial (word : List Char) : Bool :=
  unsigned word = "inf".toList || unsigned word = "nan".toList

/-! ## Dates and times -/

/-- Takes a date off a word. -/
def date? (word : List Char) : Option (List Char) := do
  let (year, rest) ← readNumber 4 4 word
  let (month, rest) ← readNumber 2 2 (← readChar '-' rest)
  let (day, rest) ← readNumber 2 2 (← readChar '-' rest)
  let _ ← dayOfDate? year month day
  pure rest

/-- Takes a time of day off a word. -/
def time? (word : List Char) : Option (List Char) := do
  let (_, rest) ← readTwo 23 word
  let (_, rest) ← readTwo 59 (← readChar ':' rest)
  let (_, rest) ← readTwo 60 (← readChar ':' rest)
  let (_, rest) ← readFraction rest
  pure rest

/-- Whether a word is a time of day with an optional offset from UTC. -/
def isClock (word : List Char) : Bool :=
  (time? word).any fun offset => offset.isEmpty || (readOffset? offset).isSome

/-- Whether a word is a date. -/
def isDate (word : List Char) : Bool :=
  (date? word).any List.isEmpty

/-- Whether a word is a date with a time, or a time alone. -/
def isDateTime (word : List Char) : Bool :=
  (time? word).any List.isEmpty ||
    match date? word with
    | some (delimiter :: clock) => (delimiter = 'T' || delimiter = 't') && isClock clock
    | _ => false

/-- Whether a word is a number, or a date or time. -/
def isScalar (word : List Char) : Bool :=
  isWhole word || isReal word || isSpecial word || isDate word || isDateTime word

end FilterQuery.Toml
