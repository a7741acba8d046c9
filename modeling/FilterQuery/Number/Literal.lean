import FilterQuery.Number.Binary64
import FilterQuery.Number.Whole

/-!
# Decimal literals

A decimal literal has an optional sign, digits with at most one point among or
beside them, and an optional exponent.  There is at least one digit beside the
exponent's.  It is read as the nearest binary number; one that is too large for
any finite number is refused.
-/

namespace FilterQuery.Number

/-- Cuts a text at the first character of a kind, which is dropped. -/
def cutAt (found : Char → Bool) (text : List Char) : List Char × Option (List Char) :=
  match text.dropWhile fun c => !found c with
  | [] => (text, none)
  | _ :: rest => (text.takeWhile fun c => !found c, some rest)

/-- Whether a character opens an exponent. -/
def isExponentMark (c : Char) : Bool :=
  c = 'e' || c = 'E'

/-- The digits on both sides of an optional point, and how many stand behind it. -/
def readMantissa? (text : List Char) : Option (Nat × Nat) :=
  let (whole, behind) := cutAt (· = '.') text
  let fraction := behind.getD []
  (readNat? (whole ++ fraction)).map fun digits => (digits, fraction.length)

/-- The exponent; without a mark it is zero. -/
def readExponent? : Option (List Char) → Option Int
  | none => some 0
  | some text => readInt? text

/-- Reads a decimal literal. -/
def readBinary64? (text : List Char) : Option Binary64 := do
  let (negative, unsigned) := (readSign? text).getD (false, text)
  let (mantissa, exponent) := cutAt isExponentMark unsigned
  let (digits, places) ← readMantissa? mantissa
  let exponent ← readExponent? exponent
  let x := Binary64.ofDecimal negative digits (exponent - places)
  if x.isFinite then some x else none

end FilterQuery.Number
