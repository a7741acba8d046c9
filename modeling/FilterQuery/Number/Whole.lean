/-!
# Whole numbers in decimal

Reading a whole number takes an optional sign and at least one ASCII digit;
leading zeros are allowed and nothing else is.  Words of 64 bits are read
through the unbounded integers and refused when they do not fit.
-/

namespace FilterQuery.Number

/-- The number a digit character stands for. -/
def digitValue (c : Char) : Nat :=
  c.toNat - '0'.toNat

/-- The number written by one hexadecimal digit of either case. -/
def hexDigit? (c : Char) : Option Nat :=
  if c.isDigit then some (digitValue c)
  else if 'a' ≤ c ∧ c ≤ 'f' then some (c.toNat - 'a'.toNat + 10)
  else if 'A' ≤ c ∧ c ≤ 'F' then some (c.toNat - 'A'.toNat + 10)
  else none

/-- The number written by a run of digits, the first one the most significant. -/
def ofDigits (digits : List Char) : Nat :=
  digits.foldl (fun n c => 10 * n + digitValue c) 0

/-- The decimal digits of a number, the most significant first. -/
def toDigits (n : Nat) : List Char :=
  Nat.toDigits 10 n

/-- Reads a run of at least one digit. -/
def readNat? (text : List Char) : Option Nat :=
  if text ≠ [] ∧ text.all Char.isDigit then some (ofDigits text) else none

/-- Takes a sign off a text, if it starts with one; `true` stands for minus. -/
def readSign? : List Char → Option (Bool × List Char)
  | '-' :: rest => some (true, rest)
  | '+' :: rest => some (false, rest)
  | _ => none

/-- Reads digits behind an optional sign. -/
def readInt? (text : List Char) : Option Int :=
  match readSign? text with
  | some (true, digits) => (readNat? digits).map fun n => -(n : Int)
  | some (false, digits) => (readNat? digits).map fun n => (n : Int)
  | none => (readNat? text).map fun n => (n : Int)

/-- The limit `2 ^ 63` of words of 64 bits: they lie below it, and not below its
negative. -/
def wordLimit : Int := 0x8000000000000000

/-- The limit `2 ^ 127` of words of 128 bits. -/
def longWordLimit : Int := 0x80000000000000000000000000000000

/-- The limit `2 ^ 32` of words of 32 bits without a sign. -/
def ordinalLimit : Int := 0x100000000

/-- The 64-bit word of an integer that fits one. -/
def int64? (n : Int) : Option Int64 :=
  if -wordLimit ≤ n ∧ n < wordLimit then some (Int64.ofInt n) else none

/-- Reads a signed whole number that fits 64 bits. -/
def readInt64? (text : List Char) : Option Int64 :=
  (readInt? text).bind int64?

/-- A word comes back from its integer. -/
theorem int64?_toInt (n : Int64) : int64? n.toInt = some n := by
  have lower := n.le_toInt
  have upper := n.toInt_lt
  rw [int64?, if_pos (by simp only [wordLimit]; omega), Int64.ofInt_toInt]

end FilterQuery.Number
