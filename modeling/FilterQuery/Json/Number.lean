import FilterQuery.Json.Basic
import FilterQuery.Number.Whole

/-!
# Numbers in JSON text

A number is read in one pass with a significand of 64 bits.  Digits are taken
into the significand as long as it stays below `2 ^ 64`; whole digits beyond
that only shift the exponent and decimal places beyond it are dropped.  The
significand is then rounded to a real and scaled by a power of ten that is itself
rounded, so a real of many digits can differ from the nearest one in its last
bits.
-/

namespace FilterQuery.Json

open FilterQuery.Number

/-- The parts of a number as written. -/
structure Numeral where
  negative : Bool
  wholeDigits : List Char
  places : Option (List Char)
  exponent : Option Int

/-- The largest significand. -/
def maxSignificand : Nat := 0xFFFFFFFFFFFFFFFF

/-- Takes digits into a significand until one does not fit; gives the
significand and the number of digits taken. -/
def accumulate (significand : Nat) : List Char → Nat × Nat
  | [] => (significand, 0)
  | c :: digits =>
      let next := 10 * significand + digitValue c
      if maxSignificand < next then (significand, 0)
      else
        let (total, taken) := accumulate next digits
        (total, taken + 1)

/-- The real nearest to a power of ten. -/
def powerOfTen (n : Nat) : Binary64 :=
  .ofInt (Nat.pow 10 n)

/-- The largest power of ten below infinity. -/
def maxPower : Nat := 308

/-- Divides by the largest power of ten a number of times, or until zero. -/
def shrink : Nat → Binary64 → Binary64
  | 0, x => x
  | n + 1, x => if x.magnitude = 0 then x else shrink n (x.div (powerOfTen maxPower))

/-- A significand scaled by a power of ten; `none` beyond the range of reals.
Exponents below the smallest power are reached in several divisions. -/
def scale? (significand : Nat) (exponent : Int) : Option Binary64 :=
  let x := Binary64.ofInt significand
  if 0 ≤ exponent then
    if exponent ≤ maxPower then
      let scaled := x.mul (powerOfTen exponent.toNat)
      if scaled.isInfinite then none else some scaled
    else if significand = 0 then some x
    else none
  else
    let rounds := ((-exponent).toNat - 1) / maxPower
    let shrunk := shrink rounds x
    some (shrunk.div (powerOfTen ((-exponent).toNat - rounds * maxPower)))

/-- The limit `2 ^ 31` of exponents. -/
def maxExponent : Nat := 0x80000000

/-- Exponents with more digits than a 32-bit word holds are not scaled by: they
give zero, or nothing when the number would be large. -/
def scaleWithin? (negative : Bool) (significand : Nat) (shift exponent : Int) :
    Option Binary64 :=
  let magnitude :=
    if exponent.natAbs < maxExponent then scale? significand (shift + exponent)
    else if significand ≠ 0 ∧ 0 < exponent then none
    else some (.ofInt 0)
  magnitude.map fun x => if negative then x.neg else x

/-- The value of a number.  A whole number in the range of 64-bit words, signed
or unsigned, is kept exactly; the negative zero is a real. -/
def Numeral.value (numeral : Numeral) : Json :=
  let (significand, taken) := accumulate 0 numeral.wholeDigits
  let shift : Int := numeral.wholeDigits.length - taken
  let asReal (significand : Nat) (shift exponent : Int) : Json :=
    match scaleWithin? numeral.negative significand shift exponent with
    | some x => .real x
    | none => .unreadable
  match numeral.places, numeral.exponent with
  | some places, exponent =>
      let (significand, taken) := accumulate significand places
      asReal significand (shift - taken) (exponent.getD 0)
  | none, some exponent => asReal significand shift exponent
  | none, none =>
      if shift ≠ 0 then asReal significand shift 0
      else if !numeral.negative then .whole significand
      else if 1 ≤ significand ∧ significand ≤ wordLimit then .whole (-significand)
      else .real (Binary64.ofInt significand).neg

end FilterQuery.Json
