import FilterQuery.Number.Binary64

/-!
# The fewest digits that read back

A finite number is identified by every decimal in its *rounding interval*: the
reals nearer to it than to its neighbours, with the two ends exactly when its
last significant bit is zero.  `shortest` takes the fewest digits with which
some decimal lies in that interval, and of the decimals with that many digits
the nearest one.  Only the two decimals next to the number can be that nearest
one, so two tests per digit count are enough.

All quantities are kept as naturals: the number, the ends of its interval and
the decimal grids are multiplied by `4 * 10 ^ 400` and counted in units.
-/

namespace FilterQuery.Number

/-- A decimal `digits * 10 ^ exponent`. -/
structure Decimal where
  digits : Nat
  exponent : Int
  deriving DecidableEq, Repr

/-- What happens to a number exactly between two decimals of the same length. -/
inductive Tie
  | toEven
  | up
  deriving DecidableEq, Repr

namespace Decimal

/-- Decimal places by which everything is scaled up; the smallest numbers have
their first digit in place 324 and at most seventeen digits. -/
def scalePlaces : Nat := 400

/-- The rounding interval of a number, scaled. -/
structure Interval where
  lower : Nat
  upper : Nat
  closed : Bool

/-- The scaled distance of a number from zero. -/
def scaled (x : Binary64) : Nat :=
  4 * x.magnitude * Nat.pow 10 scalePlaces

/-- The rounding interval of a positive finite number.  Below a power of two the
neighbour is only half as far away as above it. -/
def interval (x : Binary64) : Interval where
  lower := (4 * x.magnitude -
    (if x.fraction = 0 ∧ 1 < x.exponentField then x.gap else 2 * x.gap)) * Nat.pow 10 scalePlaces
  upper := (4 * x.magnitude + 2 * x.gap) * Nat.pow 10 scalePlaces
  closed := x.fraction % 2 = 0

/-- Whether a scaled real lies in an interval. -/
def Interval.holds (range : Interval) (real : Nat) : Bool :=
  if range.closed then range.lower ≤ real && real ≤ range.upper
  else range.lower < real && real < range.upper

/-- The number of digits before the point, counted from the scaled number; it is
negative when zeros follow the point. -/
def pointPlace (x : Binary64) : Int :=
  (Nat.toDigits 10 (x.magnitude * Nat.pow 10 scalePlaces / Binary64.unitsPerOne)).length
    - (scalePlaces : Int)

/-- The nearest decimal in the rounding interval whose last digit stands for
`10 ^ exponent`, if there is one. -/
def onGrid? (tie : Tie) (x : Binary64) (exponent : Int) : Option Decimal :=
  let grid := 4 * Binary64.unitsPerOne * Nat.pow 10 (exponent + scalePlaces).toNat
  let below := scaled x / grid
  let range := interval x
  let lower := range.holds (below * grid)
  let upper := range.holds ((below + 1) * grid)
  let higher :=
    match compare (2 * scaled x) ((2 * below + 1) * grid), tie with
    | .lt, _ => false
    | .gt, _ => true
    | .eq, .up => true
    | .eq, .toEven => below % 2 = 1
  if lower && upper then some ⟨if higher then below + 1 else below, exponent⟩
  else if lower then some ⟨below, exponent⟩
  else if upper then some ⟨below + 1, exponent⟩
  else none

/-- The same decimal without trailing zeros in its digits; a positive number of
`n` digits has fewer than `n` of them. -/
def stripZeros : Nat → Decimal → Decimal
  | 0, d => d
  | n + 1, d =>
      if d.digits % 10 = 0 then stripZeros n ⟨d.digits / 10, d.exponent + 1⟩ else d

/-- The fewest digits that identify a positive finite number.  Seventeen digits
always do. -/
def shortest (tie : Tie) (x : Binary64) : Decimal :=
  let place := pointPlace x
  match (List.range 17).findSome? fun n => onGrid? tie x (place - (n + 1 : Nat)) with
  | some d => stripZeros 17 d
  | none => ⟨x.magnitude * Nat.pow 5 1074, -1074⟩

end Decimal

/-! ## Layout -/

/-- How a number is written once its digits are chosen. -/
structure NumberLayout where
  /-- Which way a tie between two shortest decimals goes. -/
  tie : Tie
  /-- Counts of digits before the point from which on, and up to which, all
  digits are written out; outside the range an exponent is written. -/
  positional : Int → Bool
  /-- What follows a number without decimal places that is written out. -/
  wholeSuffix : String
  /-- The text of an infinity, behind its sign. -/
  infinite : String
  /-- The text of a NaN. -/
  nan : String

namespace NumberLayout

/-- A run of zeros. -/
def zeros (n : Nat) : String :=
  String.ofList (List.replicate n '0')

/-- All digits with the point in its place: before them, after them or between
them. -/
def writtenOut (layout : NumberLayout) (digits : List Char) (place : Int) : String :=
  if place ≤ 0 then "0." ++ zeros (-place).toNat ++ String.ofList digits
  else if digits.length ≤ place then
    String.ofList digits ++ zeros (place.toNat - digits.length) ++ layout.wholeSuffix
  else
    String.ofList (digits.take place.toNat) ++ "." ++ String.ofList (digits.drop place.toNat)

/-- One digit before the point, the others behind it, and a signed exponent. -/
def withExponent (digits : List Char) (place : Int) : String :=
  let exponent := place - 1
  String.ofList (digits.take 1)
    ++ (if digits.length ≤ 1 then "" else "." ++ String.ofList (digits.drop 1))
    ++ "e" ++ (if exponent < 0 then "-" else "+") ++ toString exponent.natAbs

/-- The text of a number. -/
def write (layout : NumberLayout) (x : Binary64) : String :=
  if x.isNaN then layout.nan
  else
    (if x.isNegative then "-" else "") ++
      if x.isInfinite then layout.infinite
      else if x.magnitude = 0 then "0" ++ layout.wholeSuffix
      else
        let decimal := Decimal.shortest layout.tie x
        let digits := Nat.toDigits 10 decimal.digits
        let place := decimal.exponent + digits.length
        if layout.positional place then layout.writtenOut digits place
        else withExponent digits place

end NumberLayout

end FilterQuery.Number
