import FilterQuery.Number.Whole

/-!
# Binary floating point numbers of 64 bits

A `Binary64` is the bit pattern of a double-precision number: a sign bit, eleven
exponent bits and 52 fraction bits.  No machine arithmetic is used.  Every
finite number is a whole number of *units* of `2 ^ -1074`, so order and
arithmetic are exact statements about integers; the same formula puts the two
infinities beyond all finite numbers.
-/

namespace FilterQuery.Number

/-- A double-precision number, held as its bits. -/
structure Binary64 where
  bits : UInt64
  deriving DecidableEq

namespace Binary64

/-- The sign bit, `2 ^ 63`. -/
def signBit : Nat := 0x8000000000000000

/-- The bit in front of the fraction bits, `2 ^ 52`. -/
def leadingBit : Nat := 0x10000000000000

/-- The bits below the sign bit. -/
def unsignedBits (x : Binary64) : Nat :=
  x.bits.toNat % signBit

/-- Whether the sign bit is set. -/
def isNegative (x : Binary64) : Bool :=
  signBit ≤ x.bits.toNat

/-- The eleven exponent bits. -/
def exponentField (x : Binary64) : Nat :=
  x.unsignedBits / leadingBit

/-- The 52 fraction bits. -/
def fraction (x : Binary64) : Nat :=
  x.unsignedBits % leadingBit

/-- The unsigned bits of an infinity: all exponent bits and no fraction bit. -/
def infinityBits : Nat := 2047 * leadingBit

def isNaN (x : Binary64) : Bool :=
  infinityBits < x.unsignedBits

def isInfinite (x : Binary64) : Bool :=
  x.unsignedBits = infinityBits

def isFinite (x : Binary64) : Bool :=
  x.unsignedBits < infinityBits

/-- The number with the given sign and unsigned bits. -/
def ofSigned (negative : Bool) (unsignedBits : Nat) : Binary64 :=
  ⟨UInt64.ofNat ((if negative then signBit else 0) + unsignedBits)⟩

/-- The same number with the other sign. -/
def neg (x : Binary64) : Binary64 :=
  ofSigned (!x.isNegative) x.unsignedBits

/-- The gap to the next number away from zero, in units. -/
def gap (x : Binary64) : Nat :=
  Nat.pow 2 (x.exponentField - 1)

/-- The distance from zero in units.  Without exponent bits the fraction stands
alone; otherwise a leading bit stands in front of it. -/
def magnitude (x : Binary64) : Nat :=
  (if x.exponentField = 0 then x.fraction else leadingBit + x.fraction) * x.gap

/-- The number in units of `2 ^ -1074`. -/
def units (x : Binary64) : Int :=
  if x.isNegative then -(x.magnitude : Int) else x.magnitude

/-- How many units make one. -/
def unitsPerOne : Nat := Nat.pow 2 1074

/-! ## Order -/

/-- The order of two numbers; nothing is ordered against a NaN. -/
def compare (x y : Binary64) : Option Ordering :=
  if x.isNaN || y.isNaN then none else some (Ord.compare x.units y.units)

/-- Whether a number is below another one. -/
def lt (x y : Binary64) : Bool :=
  x.compare y = some .lt

/-- Whether a number is at most another one. -/
def le (x y : Binary64) : Bool :=
  (x.compare y).any Ordering.isLE

/-! ## Rounding -/

/-- The quotient rounded to the nearest integer, a tie to the even neighbour. -/
def roundQuotient (numerator denominator : Nat) : Nat :=
  let quotient := numerator / denominator
  match Ord.compare (2 * (numerator % denominator)) denominator with
  | .lt => quotient
  | .gt => quotient + 1
  | .eq => quotient + quotient % 2

/-- How many low bits of a magnitude do not fit a significand of 53 bits. -/
def excessBits (magnitude : Nat) : Nat :=
  magnitude.log2 + 1 - 53

/-- The number nearest to a ratio, a tie to the even neighbour; a ratio beyond
the finite numbers gives an infinity. -/
def ofRatio (negative : Bool) (numerator denominator : Nat) : Binary64 :=
  let scaled := numerator * unitsPerOne
  let excess := excessBits (scaled / denominator)
  let rounded := excess * leadingBit + roundQuotient scaled (denominator * Nat.pow 2 excess)
  ofSigned negative (min rounded infinityBits)

/-- The number nearest to an integer. -/
def ofInt (n : Int) : Binary64 :=
  ofRatio (n < 0) n.natAbs 1

/-- The product of two finite numbers, rounded to the nearest number. -/
def mul (x y : Binary64) : Binary64 :=
  ofRatio (x.isNegative != y.isNegative) (x.magnitude * y.magnitude) (unitsPerOne * unitsPerOne)

/-- The quotient of two finite numbers, rounded to the nearest number. -/
def div (x y : Binary64) : Binary64 :=
  ofRatio (x.isNegative != y.isNegative) x.magnitude y.magnitude

/-- The difference of two finite numbers, rounded to the nearest number.  A
difference of nothing is positive zero, unless positive zero is taken off
negative zero. -/
def sub (x y : Binary64) : Binary64 :=
  let difference := x.units - y.units
  let negative := if difference = 0 then x.isNegative && !y.isNegative else difference < 0
  ofRatio negative difference.natAbs unitsPerOne

/-- The whole part of a finite number, which is cut off towards zero and keeps
its sign. -/
def trunc (x : Binary64) : Binary64 :=
  ofRatio x.isNegative (x.magnitude / unitsPerOne) 1

/-- The number nearest to `digits * 10 ^ exponent`.  Numbers of more than 310
places before the point are infinite and those whose first digit stands more
than 330 places behind it are zero, so powers of ten stay small. -/
def ofDecimal (negative : Bool) (digits : Nat) (exponent : Int) : Binary64 :=
  let places := (Nat.toDigits 10 digits).length + exponent
  if digits = 0 ∨ places < -330 then ofSigned negative 0
  else if 310 < places then ofSigned negative infinityBits
  else ofRatio negative (digits * Nat.pow 10 exponent.toNat) (Nat.pow 10 (-exponent).toNat)

/-! ## Words -/

/-- The word of a number: its whole part, held within the range of words.  A NaN
has the word zero. -/
def toInt64 (x : Binary64) : Int64 :=
  let whole := x.units.tdiv unitsPerOne
  if x.isNaN then 0
  else if whole < -wordLimit then Int64.minValue
  else if wordLimit ≤ whole then Int64.maxValue
  else Int64.ofInt whole

def zero : Binary64 :=
  ⟨0⟩

/-- The number `2 ^ 63`, the first one above all words. -/
def wordBound : Binary64 :=
  ⟨0x43E0000000000000⟩

/-- The order of a word against a number.  Beyond the range of words the number
decides alone; within it the word is compared with the whole part, and the sign
of what is left of the number breaks a tie. -/
def compareInt (n : Int64) (x : Binary64) : Option Ordering :=
  if x.isNaN then none
  else if wordBound.le x then some .lt
  else if x.lt wordBound.neg then some .gt
  else
    let whole := x.trunc
    let rest := x.sub whole
    let tie : Ordering := if zero.lt rest then .lt else if rest.lt zero then .gt else .eq
    some ((Ord.compare n whole.toInt64).then tie)

end Binary64

end FilterQuery.Number
