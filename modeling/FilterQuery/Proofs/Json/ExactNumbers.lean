import FilterQuery.Proofs.Json.WrittenNumbers
import FilterQuery.Proofs.Number.Rounding

/-!
# Numbers that are read exactly

The reader rounds twice or three times: the significand, the power of ten and their
product or quotient.  If the first two are numbers themselves, the result is rounded
only once, and so it is the nearest number to what is written.  This is the case for
significands of 53 bits and powers of ten up to the twenty-second.
-/

namespace FilterQuery.Json

open FilterQuery.Number
open FilterQuery.Number.Binary64 (unitsPerOne leadingBit ofInt ofRatio ofSigned)
open FilterQuery.Number.Decimal (grid scalePlaces)

/-! ## Scaling -/

/-- The greatest exponent of a power of ten that is a number. -/
def exactPower : Nat := 22

theorem powerOfTen_exact {n : Nat} (h : n ≤ exactPower) :
    (powerOfTen n).magnitude = 10 ^ n * unitsPerOne ∧ (powerOfTen n).isNegative = false := by
  have hfive : 5 ^ n < 2 * leadingBit :=
    Nat.lt_of_le_of_lt (Nat.pow_le_pow_right (by decide) h) (by decide)
  have hten : (10 : Nat) ^ n = 5 ^ n * 2 ^ n := by
    rw [← Nat.mul_pow]
  have hexact := Binary64.ofInt_exact hfive (show n ≤ 900 by unfold exactPower at h; omega)
  rw [← hten] at hexact
  exact hexact

theorem significand_exact {significand : Nat} (h : significand < 2 * leadingBit) :
    (ofInt significand).magnitude = significand * unitsPerOne ∧
      (ofInt significand).isNegative = false := by
  have hexact := Binary64.ofInt_exact (b := 0) h (by decide)
  rw [Nat.pow_zero, Nat.mul_one] at hexact
  exact hexact

section Scaling

variable {x : Binary64} {significand : Nat}

theorem grid_natCast (n : Nat) :
    grid n = 4 * unitsPerOne * Nat.pow 10 scalePlaces * 10 ^ n := by
  have hgrid := Decimal.grid_add (show -(scalePlaces : Int) ≤ 0 by decide) n
  rw [Int.zero_add, Decimal.grid_zero] at hgrid
  exact hgrid

theorem grid_neg_mul {n : Nat} (h : n ≤ exactPower) :
    grid (-n) * 10 ^ n = 4 * unitsPerOne * Nat.pow 10 scalePlaces := by
  have hfine : -(scalePlaces : Int) ≤ -n := by
    unfold exactPower at h
    unfold scalePlaces
    omega
  have hgrid := Decimal.grid_add hfine n
  rw [Int.add_left_neg, Decimal.grid_zero] at hgrid
  exact hgrid.symm

/-- Products with exact powers of ten are rounded once. -/
theorem mul_powerOfTen {n : Nat} (hfinite : x.isFinite = true)
    (hsignificand : significand < 2 * leadingBit) (hn : n ≤ exactPower)
    (h : (Decimal.interval x).holds (significand * grid n) = true) :
    (ofInt significand).mul (powerOfTen n) = ofSigned false x.unsignedBits := by
  obtain ⟨hmagnitude, hsign⟩ := significand_exact hsignificand
  obtain ⟨hpower, hpowerSign⟩ := powerOfTen_exact hn
  have hpos := Binary64.unitsPerOne_pos
  unfold Binary64.mul
  rw [hmagnitude, hsign, hpower, hpowerSign]
  refine Binary64.ofRatio_of_holds hfinite (Nat.mul_pos hpos hpos) h ?_ _
  rw [grid_natCast]
  ring

/-- Quotients by exact powers of ten are rounded once. -/
theorem div_powerOfTen {n : Nat} (hfinite : x.isFinite = true)
    (hsignificand : significand < 2 * leadingBit) (hn : n ≤ exactPower)
    (h : (Decimal.interval x).holds (significand * grid (-n)) = true) :
    (ofInt significand).div (powerOfTen n) = ofSigned false x.unsignedBits := by
  obtain ⟨hmagnitude, hsign⟩ := significand_exact hsignificand
  obtain ⟨hpower, hpowerSign⟩ := powerOfTen_exact hn
  have hpos := Binary64.unitsPerOne_pos
  unfold Binary64.div
  rw [hmagnitude, hsign, hpower, hpowerSign]
  refine Binary64.ofRatio_of_holds hfinite (Nat.mul_pos (Nat.pow_pos (by decide)) hpos) h ?_ _
  rw [← Nat.mul_assoc, Nat.mul_assoc significand, grid_neg_mul hn]
  ring

theorem isInfinite_ofSigned (hfinite : x.isFinite = true) :
    (ofSigned false x.unsignedBits).isInfinite = false := by
  have hbits := (Binary64.isFinite_iff x).mp hfinite
  refine decide_eq_false ?_
  rw [Binary64.unsignedBits_ofSigned false x.unsignedBits_lt]
  exact Nat.ne_of_lt hbits

/-- A decimal of an exact significand and power is scaled to the number it identifies. -/
theorem scale?_of_holds {exponent : Int} (hfinite : x.isFinite = true)
    (hsignificand : significand < 2 * leadingBit) (hexponent : exponent.natAbs ≤ exactPower)
    (h : (Decimal.interval x).holds (significand * grid exponent) = true) :
    scale? significand exponent = some (ofSigned false x.unsignedBits) := by
  unfold scale?
  dsimp only
  unfold exactPower at hexponent
  by_cases hsign : 0 ≤ exponent
  · have hn : (exponent.toNat : Int) = exponent := Int.toNat_of_nonneg hsign
    rw [← hn] at h
    have hscaled := mul_powerOfTen hfinite hsignificand (by unfold exactPower; omega) h
    have hmax : exponent ≤ maxPower := by
      unfold maxPower
      omega
    rw [if_pos hsign, if_pos hmax, hscaled, isInfinite_ofSigned hfinite, if_neg Bool.false_ne_true]
  · have hn : exponent = -((-exponent).toNat : Int) := by omega
    have hrounds : ((-exponent).toNat - 1) / maxPower = 0 :=
      Nat.div_eq_of_lt (by unfold maxPower; omega)
    rw [hn] at h
    have hscaled := div_powerOfTen hfinite hsignificand (by unfold exactPower; omega) h
    rw [if_neg hsign, hrounds, Nat.zero_mul, Nat.sub_zero, shrink, hscaled]

end Scaling

/-! ## Numerals -/

namespace Numeral

/-- The number that all digits of a numeral before its exponent write. -/
def significand (numeral : Numeral) : Nat :=
  ofDigits (numeral.wholeDigits ++ numeral.places.getD [])

/-- The power of ten by which the digits of a numeral are scaled. -/
def scale (numeral : Numeral) : Int :=
  numeral.exponent.getD 0 - (numeral.places.getD []).length

/-- A numeral whose digits all fit is its significand scaled once. -/
theorem value_of_le {numeral : Numeral}
    (hpoint : numeral.places ≠ none ∨ numeral.exponent ≠ none)
    (hfits : numeral.significand ≤ maxSignificand)
    (hexponent : (numeral.exponent.getD 0).natAbs < maxExponent) {y : Binary64}
    (hscale : scale? numeral.significand numeral.scale = some y) :
    numeral.value = .real (if numeral.negative then y.neg else y) := by
  obtain ⟨negative, wholeDigits, places, exponent⟩ := numeral
  unfold significand scale at *
  dsimp only at *
  have hsum := ofDigits_append wholeDigits (places.getD [])
  have hwhole : accumulate 0 wholeDigits = (ofDigits wholeDigits, wholeDigits.length) := by
    have hle := Nat.le_mul_of_pos_right (ofDigits wholeDigits)
      (Nat.pow_pos (by decide) : 0 < 10 ^ (places.getD []).length)
    rw [accumulate_of_le (by omega), Nat.zero_mul, Nat.zero_add]
  have hplaces : accumulate (ofDigits wholeDigits) (places.getD []) =
      (ofDigits (wholeDigits ++ places.getD []), (places.getD []).length) := by
    rw [hsum] at hfits ⊢
    exact accumulate_of_le hfits
  have hscaled : scaleWithin? negative (ofDigits (wholeDigits ++ places.getD []))
      (0 - (places.getD []).length) (exponent.getD 0) =
        some (if negative then y.neg else y) := by
    rw [scaleWithin?, if_pos hexponent, show (0 - ((places.getD []).length : Int) +
      exponent.getD 0) = exponent.getD 0 - (places.getD []).length by omega, hscale, Option.map_some]
  unfold value
  simp only [hwhole, Int.sub_self]
  cases places with
  | some places =>
      simp only [Option.getD_some] at hplaces hscaled
      simp only [hplaces, hscaled]
  | none =>
      cases exponent with
      | none => simp at hpoint
      | some exponent =>
          simp only [Option.getD_none, List.append_nil, List.length_nil, Option.getD_some,
            Nat.cast_zero, Int.sub_zero] at hscaled
          simp only [hscaled]

/-- Moving the point of a decimal leaves its digits, with zeros behind them where the point
is set behind all digits. -/
theorem exists_significand_ofDecimal (negative : Bool) (decimal : Decimal) :
    ∃ k : Nat, (ofDecimal negative decimal).significand = decimal.digits * 10 ^ k ∧
      (ofDecimal negative decimal).scale = decimal.exponent - k := by
  have hdigits := ofDigits_toDigits decimal.digits
  have hlength := List.length_pos_iff.mpr (toDigits_isRun decimal.digits).ne_nil
  have hzero : ofDigits ['0'] = 0 := rfl
  unfold ofDecimal significand scale
  dsimp only
  generalize toDigits decimal.digits = digits at hdigits hlength ⊢
  split
  · split
    · refine ⟨0, ?_, ?_⟩
      · simp only [Option.getD_some, ofDigits_append, hzero, ofDigits_replicate_zero, hdigits,
          Nat.zero_mul, Nat.zero_add, Nat.pow_zero, Nat.mul_one]
      · simp only [Option.getD_some, Option.getD_none, List.length_append, List.length_replicate]
        omega
    · split
      · refine ⟨(decimal.exponent + 1).toNat, ?_, ?_⟩
        · have hzeros : (decimal.exponent + 1).toNat =
              (decimal.exponent + digits.length).toNat - digits.length + 1 := by
            omega
          simp only [Option.getD_some, ofDigits_append, hzero, ofDigits_replicate_zero, hdigits,
            List.length_replicate, List.length_singleton, Nat.add_zero, hzeros, Nat.pow_succ,
            Nat.pow_zero, Nat.one_mul, Nat.mul_assoc]
        · simp only [Option.getD_some, Option.getD_none, List.length_singleton]
          omega
      · refine ⟨0, ?_, ?_⟩
        · simp only [Option.getD_some, List.take_append_drop, hdigits, Nat.pow_zero, Nat.mul_one]
        · simp only [Option.getD_some, Option.getD_none, List.length_drop]
          omega
  · refine ⟨0, ?_, ?_⟩
    · split
      · rename_i hshort
        simp only [Option.getD_none, List.append_nil, List.take_of_length_le hshort, hdigits,
          Nat.pow_zero, Nat.mul_one]
      · simp only [Option.getD_some, List.take_append_drop, hdigits, Nat.pow_zero, Nat.mul_one]
    · split
      · simp only [Option.getD_some, Option.getD_none, List.length_nil]
        omega
      · simp only [Option.getD_some, List.length_drop]
        omega

/-- The exponent of a laid out decimal is not much greater than its scale. -/
theorem natAbs_exponent_ofDecimal (negative : Bool) (decimal : Decimal) :
    ((ofDecimal negative decimal).exponent.getD 0).natAbs ≤
      (ofDecimal negative decimal).scale.natAbs + (toDigits decimal.digits).length := by
  unfold ofDecimal scale
  dsimp only
  split
  · split
    · exact Nat.zero_le _
    · split <;> exact Nat.zero_le _
  · simp only [Option.getD_some]
    split
    · simp only [Option.getD_none, List.length_nil]
      omega
    · simp only [Option.getD_some, List.length_drop]
      omega

theorem negative_ofReal (x : Binary64) : (ofReal x).negative = x.isNegative := by
  unfold ofReal ofDecimal
  dsimp only
  repeat' split
  all_goals rfl

/-- The decimal that a number is written as identifies it, if its last digit is not too far
behind the point. -/
theorem holds_ofReal {x : Binary64} (hscale : -300 ≤ (ofReal x).scale) :
    (Decimal.interval x).holds ((ofReal x).significand * grid (ofReal x).scale) = true := by
  unfold ofReal at hscale ⊢
  split
  · rename_i hzero
    have hsignificand : significand ⟨x.isNegative, ['0'], some ['0'], none⟩ = 0 := rfl
    rw [hsignificand, Nat.zero_mul]
    exact Decimal.holds_zero hzero
  · rename_i hnonzero
    rw [if_neg hnonzero] at hscale
    generalize hdecimal : Decimal.shortest realLayout.tie x = decimal at hscale ⊢
    obtain ⟨k, hsignificand, hexponent⟩ :=
      exists_significand_ofDecimal x.isNegative decimal
    have hholds : (Decimal.interval x).holds (decimal.digits * grid decimal.exponent) = true := by
      rw [← hdecimal]
      exact Decimal.holds_shortest (by rw [hdecimal]; omega)
    have hfine : -(scalePlaces : Int) ≤ (ofDecimal x.isNegative decimal).scale := by
      unfold scalePlaces
      omega
    have hgrid := Decimal.grid_add hfine k
    rw [show (ofDecimal x.isNegative decimal).scale + k = decimal.exponent by omega] at hgrid
    rw [hgrid] at hholds
    rw [hsignificand, Nat.mul_assoc, Nat.mul_comm (10 ^ k)]
    exact hholds

/-- Exponents of numbers with few digits are small. -/
theorem natAbs_exponent_ofReal {x : Binary64}
    (hsignificand : (ofReal x).significand < 2 * leadingBit) :
    ((ofReal x).exponent.getD 0).natAbs ≤ (ofReal x).scale.natAbs + 16 := by
  unfold ofReal at hsignificand ⊢
  split
  · exact Nat.zero_le _
  · rename_i hnonzero
    rw [if_neg hnonzero] at hsignificand
    generalize Decimal.shortest realLayout.tie x = decimal at hsignificand ⊢
    obtain ⟨k, hdigits, -⟩ := exists_significand_ofDecimal x.isNegative decimal
    have hle := Nat.le_mul_of_pos_right decimal.digits (Nat.pow_pos (by decide) : 0 < 10 ^ k)
    have hlength : (toDigits decimal.digits).length ≤ 16 := by
      rw [length_toDigits_le_iff (by decide)]
      unfold leadingBit at hsignificand
      omega
    exact Nat.le_trans (natAbs_exponent_ofDecimal x.isNegative decimal) (by omega)

end Numeral

/-- A finite number of few digits: those that it is written with make a number of 53 bits, and
the last of them stands at most 22 places before or behind the point. -/
structure IsShort (x : Binary64) : Prop where
  finite : x.isFinite = true
  significand_lt : (Numeral.ofReal x).significand < 2 * leadingBit
  scale_le : (Numeral.ofReal x).scale.natAbs ≤ exactPower

/-- A number of few digits comes back from its text. -/
theorem IsShort.rereadReal_eq {x : Binary64} (h : IsShort x) : rereadReal x = .real x := by
  have hscale := h.scale_le
  have hsignificand := h.significand_lt
  -- The sign plays no part until the end: the reader scales the digits and then negates.
  have hholds := Numeral.holds_ofReal (x := x) (by unfold exactPower at hscale; omega)
  have hscaled := scale?_of_holds h.finite hsignificand hscale hholds
  have hexponent := Numeral.natAbs_exponent_ofReal hsignificand
  have hfits : (Numeral.ofReal x).significand ≤ maxSignificand := by
    unfold leadingBit at hsignificand
    unfold maxSignificand
    omega
  have hsmall : ((Numeral.ofReal x).exponent.getD 0).natAbs < maxExponent := by
    unfold exactPower at hscale
    unfold maxExponent
    omega
  rw [rereadReal, if_pos h.finite,
    Numeral.value_of_le (Numeral.places_or_exponent_ofReal x) hfits hsmall hscaled,
    Numeral.negative_ofReal, Binary64.neg_ofSigned false x.unsignedBits_lt]
  congr 1
  cases hsign : x.isNegative with
  | true =>
      rw [if_pos rfl, Bool.not_false, ← hsign]
      exact Binary64.ofSigned_self x
  | false =>
      rw [if_neg Bool.false_ne_true, ← hsign]
      exact Binary64.ofSigned_self x

end FilterQuery.Json
