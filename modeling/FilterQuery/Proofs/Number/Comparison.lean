import FilterQuery.Proofs.Number.Rounding
import FilterQuery.Value
import Mathlib.Algebra.Order.Ring.WithTop
import Mathlib.Data.Rat.Cast.Order
import Mathlib.Tactic.FieldSimp
import Mathlib.Tactic.NormNum

/-!
# Words against numbers

The bits of a number stand for a fraction with a power of two below the line, for an infinity, or
for nothing.  A word is compared with a number through the whole part of the number and what is
left of it.  Both are numbers themselves, so that cutting off, taking away and turning the whole
part into a word are all exact, and the comparison gives the order of what word and number stand
for.
-/

namespace FilterQuery.Number

namespace Binary64

/-! ## What the bits stand for -/

/-- How far a finite number is from zero.  The fraction bits stand behind a point, with a one in
front of it unless the exponent bits are zero. -/
def absoluteValue (x : Binary64) : ℚ :=
  if x.exponentField = 0 then (x.fraction : ℚ) / 2 ^ 52 * 2 ^ (-1022 : ℤ)
  else (1 + (x.fraction : ℚ) / 2 ^ 52) * 2 ^ ((x.exponentField : ℤ) - 1023)

/-- The fraction that the bits of a finite number stand for. -/
def finiteValue (x : Binary64) : ℚ :=
  if x.isNegative then -x.absoluteValue else x.absoluteValue

/-- A fraction among the fractions and the two infinities. -/
def ofFraction (q : ℚ) : WithBot (WithTop ℚ) :=
  WithBot.some (WithTop.some q)

/-- What the bits stand for: an infinity or nothing if all exponent bits are set, and a fraction
otherwise. -/
def value? (x : Binary64) : Option (WithBot (WithTop ℚ)) :=
  if x.exponentField = 2047 then
    if x.fraction = 0 then some (if x.isNegative then ⊥ else ⊤) else none
  else some (ofFraction x.finiteValue)

/-- A word among the values of numbers. -/
def valueOfWord (n : Int64) : WithBot (WithTop ℚ) :=
  ofFraction n.toInt

theorem ofFraction_strictMono : StrictMono ofFraction :=
  WithBot.coe_strictMono.comp WithTop.coe_strictMono

theorem bot_lt_ofFraction (q : ℚ) : ⊥ < ofFraction q :=
  WithBot.bot_lt_coe _

theorem ofFraction_lt_top (q : ℚ) : ofFraction q < ⊤ :=
  WithBot.coe_lt_coe.mpr (WithTop.coe_lt_top q)

variable {x : Binary64}

theorem leadingBit_cast : (leadingBit : ℚ) = 2 ^ (52 : ℤ) := by
  norm_num [leadingBit]

theorem unitsPerOne_cast : (unitsPerOne : ℚ) = 2 ^ (unitPlaces : ℤ) := by
  rw [unitsPerOne_eq, zpow_natCast, Nat.cast_pow, Nat.cast_ofNat]

/-- The distance from zero by level and significand. -/
theorem absoluteValue_eq (x : Binary64) :
    x.absoluteValue = x.significand / 2 ^ (52 : ℤ) * 2 ^ ((x.level : ℤ) - 1022) := by
  have two_pow : (2 : ℚ) ^ (52 : ℕ) = 2 ^ (52 : ℤ) := rfl
  unfold absoluteValue significand level
  rw [two_pow]
  by_cases subnormal : x.exponentField = 0
  · simp [subnormal]
  · rw [if_neg subnormal, if_neg subnormal, Nat.cast_add, leadingBit_cast, add_div,
      div_self (by positivity)]
    congr 2
    omega

/-- Units count the fraction that the bits stand for. -/
theorem units_eq (x : Binary64) : (x.units : ℚ) = x.finiteValue * unitsPerOne := by
  have magnitude_cast : (x.magnitude : ℚ) = x.absoluteValue * unitsPerOne := by
    have places : ((x.level : ℤ) - 1022) + unitPlaces = (x.level : ℤ) + 52 := by
      unfold unitPlaces
      omega
    calc (x.magnitude : ℚ)
        = x.significand * 2 ^ (x.level : ℤ) := by
          rw [magnitude_eq, zpow_natCast, Nat.cast_mul, Nat.cast_pow, Nat.cast_ofNat]
      _ = x.significand / 2 ^ (52 : ℤ) * 2 ^ ((x.level : ℤ) + 52) := by
          rw [zpow_add₀ two_ne_zero]
          field_simp
      _ = x.absoluteValue * unitsPerOne := by
          rw [← places, zpow_add₀ two_ne_zero, ← mul_assoc, absoluteValue_eq, unitsPerOne_cast]
  unfold units finiteValue
  split
  · rw [Int.cast_neg, Int.cast_natCast, magnitude_cast, neg_mul]
  · rw [Int.cast_natCast, magnitude_cast]

/-! ## Whole parts -/

theorem natAbs_units (x : Binary64) : x.units.natAbs = x.magnitude := by
  unfold units
  split <;> simp

theorem level_significand_of_isFinite (finite : x.isFinite = true) :
    x.level * leadingBit + x.significand < infinityBits := by
  rw [← unsignedBits_eq]
  exact (isFinite_iff x).mp finite

theorem unitsPerOne_eq_mul {level : Nat} (below : level ≤ unitPlaces) :
    unitsPerOne = 2 ^ (unitPlaces - level) * 2 ^ level := by
  rw [unitsPerOne_eq, ← Nat.pow_add, Nat.sub_add_cancel below]

/-- A number is whole if all its bits stand for one or more. -/
theorem unitsPerOne_dvd_magnitude (above : unitPlaces ≤ x.level) : unitsPerOne ∣ x.magnitude := by
  rw [magnitude_eq, unitsPerOne_eq]
  exact Dvd.dvd.mul_left (Nat.pow_dvd_pow 2 above) _

/-- The whole part of a finite number is not rounded. -/
theorem trunc_exact (finite : x.isFinite = true) :
    x.trunc.magnitude = x.magnitude / unitsPerOne * unitsPerOne ∧
      x.trunc.isNegative = x.isNegative ∧ x.trunc.isFinite = true := by
  by_cases below : x.level ≤ unitPlaces
  · -- the bits that stand for less than one are dropped from the significand
    have whole_eq : x.magnitude / unitsPerOne = x.significand / 2 ^ (unitPlaces - x.level) := by
      rw [magnitude_eq, unitsPerOne_eq_mul below, Nat.mul_div_mul_right _ _ (Nat.two_pow_pos _)]
    have whole_lt : x.magnitude / unitsPerOne < 2 * leadingBit := by
      rw [whole_eq]
      exact Nat.lt_of_le_of_lt (Nat.div_le_self _ _) x.significand_lt
    have whole_units : x.magnitude / unitsPerOne * unitsPerOne =
        x.magnitude / unitsPerOne * 2 ^ unitPlaces :=
      congrArg (x.magnitude / unitsPerOne * ·) unitsPerOne_eq
    have places_le : unitPlaces ≤ 1974 := by decide
    obtain ⟨truncated, sign_eq, is_finite⟩ := ofRatio_exact x.isNegative Nat.one_pos whole_lt
      places_le (whole_units.trans (Nat.mul_one _).symm)
    exact ⟨truncated.trans whole_units.symm, sign_eq, is_finite⟩
  · -- the number is whole
    have whole_eq : x.magnitude / unitsPerOne * unitsPerOne = x.magnitude :=
      Nat.div_mul_cancel (unitsPerOne_dvd_magnitude (Nat.le_of_not_le below))
    obtain ⟨truncated, sign_eq, is_finite⟩ := ofRatio_of_eq x.isNegative Nat.one_pos
      x.significand_lt leadingBit_le_significand (level_significand_of_isFinite finite)
      (whole_eq.trans (x.magnitude_eq.trans (Nat.mul_one _).symm))
    exact ⟨truncated.trans (x.magnitude_eq.symm.trans whole_eq.symm), sign_eq, is_finite⟩

theorem units_trunc (finite : x.isFinite = true) :
    x.trunc.units = x.units.tdiv unitsPerOne * unitsPerOne := by
  obtain ⟨magnitude_eq, isNegative_eq, -⟩ := trunc_exact finite
  unfold units
  rw [magnitude_eq, isNegative_eq, Nat.cast_mul, Int.ofNat_tdiv]
  split
  · rw [Int.neg_tdiv, Int.neg_mul]
  · rfl

/-- The units of a number by their distance from zero and its sign. -/
theorem units_eq_of {d : ℤ} (distance : x.magnitude = d.natAbs)
    (sign : d ≠ 0 → x.isNegative = decide (d < 0)) : x.units = d := by
  unfold units
  rw [distance]
  rcases lt_trichotomy d 0 with below | rfl | above
  · rw [sign below.ne, if_pos (decide_eq_true below)]
    omega
  · simp
  · rw [sign above.ne', decide_eq_false above.not_gt, if_neg Bool.false_ne_true]
    omega

/-- What is left of a number beside its whole part is a significand on the level of the number. -/
theorem exists_magnitude_mod_eq (x : Binary64) :
    ∃ a b, a < 2 * leadingBit ∧ b ≤ 1974 ∧ x.magnitude % unitsPerOne = a * 2 ^ b := by
  by_cases below : x.level ≤ unitPlaces
  · refine ⟨x.significand % 2 ^ (unitPlaces - x.level), x.level, ?_, below.trans (by decide), ?_⟩
    · exact Nat.lt_of_le_of_lt (Nat.mod_le _ _) x.significand_lt
    · rw [magnitude_eq, unitsPerOne_eq_mul below, Nat.mul_mod_mul_right]
  · refine ⟨0, 0, by decide, by decide, ?_⟩
    rw [Nat.zero_mul]
    exact Nat.mod_eq_zero_of_dvd (unitsPerOne_dvd_magnitude (Nat.le_of_not_le below))

/-- So it is not rounded either. -/
theorem sub_trunc_exact (finite : x.isFinite = true) :
    (x.sub x.trunc).units = x.units.tmod unitsPerOne ∧ (x.sub x.trunc).isFinite = true := by
  have difference_eq : x.units - x.trunc.units = x.units.tmod unitsPerOne := by
    rw [units_trunc finite, Int.tmod_def, Int.mul_comm]
  have distance : (x.units.tmod unitsPerOne).natAbs = x.magnitude % unitsPerOne := by
    rw [Int.natAbs_tmod, natAbs_units, Int.natAbs_natCast]
  obtain ⟨a, b, a_lt, b_le, rest_eq⟩ := x.exists_magnitude_mod_eq
  have numerator_eq : (x.units.tmod unitsPerOne).natAbs * unitsPerOne =
      a * 2 ^ b * unitsPerOne := by
    rw [distance, rest_eq]
  unfold sub
  dsimp only
  rw [difference_eq]
  obtain ⟨magnitude_rest, isNegative_rest, isFinite_rest⟩ := ofRatio_exact
    (if x.units.tmod unitsPerOne = 0 then x.isNegative && !x.trunc.isNegative
      else decide (x.units.tmod unitsPerOne < 0)) unitsPerOne_pos a_lt b_le numerator_eq
  refine ⟨units_eq_of ?_ fun nonzero => ?_, isFinite_rest⟩
  · rw [magnitude_rest, distance, rest_eq]
  · rw [isNegative_rest, if_neg nonzero]

/-! ## Kinds of numbers -/

theorem unsignedBits_eq_exponentField (x : Binary64) :
    x.unsignedBits = x.exponentField * leadingBit + x.fraction :=
  (Nat.div_add_mod' x.unsignedBits leadingBit).symm

theorem exponentField_le (x : Binary64) : x.exponentField ≤ 2047 := by
  have below := x.unsignedBits_lt
  rw [unsignedBits_eq_exponentField] at below
  unfold signBit leadingBit at below
  omega

theorem isFinite_iff_exponentField (x : Binary64) :
    x.isFinite = true ↔ x.exponentField ≠ 2047 := by
  have fraction_lt := x.fraction_lt
  have field_le := x.exponentField_le
  rw [isFinite_iff, unsignedBits_eq_exponentField]
  unfold infinityBits leadingBit at *
  omega

theorem isNaN_iff (x : Binary64) :
    x.isNaN = true ↔ x.exponentField = 2047 ∧ x.fraction ≠ 0 := by
  have fraction_lt := x.fraction_lt
  have field_le := x.exponentField_le
  unfold isNaN
  rw [decide_eq_true_iff, unsignedBits_eq_exponentField]
  unfold infinityBits leadingBit at *
  omega

/-- What stands for nothing is not a number. -/
theorem value?_eq_none_iff (x : Binary64) : x.value? = none ↔ x.isNaN = true := by
  rw [isNaN_iff]
  unfold value?
  split
  · rename_i all_set
    split <;> simp_all
  · simp_all

/-- Finite numbers are those that stand for a fraction. -/
theorem value?_of_isFinite (finite : x.isFinite = true) :
    x.value? = some (ofFraction x.finiteValue) :=
  if_neg ((isFinite_iff_exponentField x).mp finite)

theorem isNaN_of_isFinite (finite : x.isFinite = true) : x.isNaN = false := by
  rw [← Bool.not_eq_true, isNaN_iff]
  exact fun nan => (isFinite_iff_exponentField x).mp finite nan.1

theorem magnitude_of_infinite (all_set : x.exponentField = 2047) (rest : x.fraction = 0) :
    x.magnitude = leadingBit * (2 ^ 972 * unitsPerOne) := by
  have level_eq : x.level = 972 + unitPlaces := by
    rw [level, all_set]
    rfl
  have significand_eq : x.significand = leadingBit := by
    rw [significand, rest, if_neg (by omega), Nat.add_zero]
  rw [magnitude_eq, level_eq, significand_eq, pow_add, unitsPerOne_eq]

/-! ## The range of words -/

theorem le_iff_units_le {y : Binary64} (hx : x.isNaN = false) (hy : y.isNaN = false) :
    x.le y = true ↔ x.units ≤ y.units := by
  unfold le Binary64.compare
  rw [hx, hy, Bool.or_false, if_neg Bool.false_ne_true, Option.any_some, Std.isLE_compare]

theorem lt_iff_units_lt {y : Binary64} (hx : x.isNaN = false) (hy : y.isNaN = false) :
    x.lt y = true ↔ x.units < y.units := by
  unfold lt Binary64.compare
  rw [hx, hy, Bool.or_false, if_neg Bool.false_ne_true, decide_eq_true_iff, Option.some_inj,
    compare_lt_iff_lt]

theorem units_wordBound : wordBound.units = wordLimit * unitsPerOne := by
  decide +kernel

theorem units_neg_wordBound : wordBound.neg.units = -wordLimit * unitsPerOne := by
  decide +kernel

theorem natAbs_le_of_range {units bound : ℤ} {one : ℕ} (lower : -bound * one ≤ units)
    (upper : units < bound * one) : units.natAbs ≤ bound.natAbs * one := by
  have natAbs_eq : (bound * one).natAbs = bound.natAbs * one := by
    rw [Int.natAbs_mul, Int.natAbs_natCast]
  rw [Int.neg_mul] at lower
  omega

/-- The units of words lie in the range. -/
theorem le_toInt_mul (n : Int64) : -wordLimit * unitsPerOne ≤ n.toInt * unitsPerOne :=
  Int.mul_le_mul_of_nonneg_right n.le_toInt (Int.natCast_nonneg unitsPerOne)

theorem toInt_mul_lt (n : Int64) : n.toInt * unitsPerOne < wordLimit * unitsPerOne :=
  Int.mul_lt_mul_of_pos_right n.toInt_lt (Int.natCast_pos.mpr unitsPerOne_pos)

/-- A finite number in the range of words. -/
structure InWordRange (x : Binary64) : Prop where
  finite : x.isFinite = true
  lower : -wordLimit * unitsPerOne ≤ x.units
  upper : x.units < wordLimit * unitsPerOne

/-- Numbers beside the infinities are finite in the range of words. -/
theorem inWordRange_of_units (not_nan : x.isNaN = false)
    (lower : -wordLimit * unitsPerOne ≤ x.units) (upper : x.units < wordLimit * unitsPerOne) :
    x.InWordRange := by
  refine ⟨?_, lower, upper⟩
  rw [isFinite_iff_exponentField]
  intro all_set
  have rest : x.fraction = 0 := by
    by_contra nonzero
    rw [(isNaN_iff x).mpr ⟨all_set, nonzero⟩] at not_nan
    cases not_nan
  have magnitude_le := natAbs_le_of_range lower upper
  rw [natAbs_units] at magnitude_le
  rw [magnitude_of_infinite all_set rest, ← Nat.mul_assoc] at magnitude_le
  exact absurd (Nat.le_of_mul_le_mul_right magnitude_le unitsPerOne_pos) (by decide +kernel)

/-- The two bounds of the comparison are those of the range. -/
theorem wordBound_le_iff (not_nan : x.isNaN = false) :
    wordBound.le x = true ↔ wordLimit * unitsPerOne ≤ x.units := by
  have bound_not_nan : wordBound.isNaN = false := by decide
  rw [le_iff_units_le bound_not_nan not_nan, units_wordBound]

theorem lt_neg_wordBound_iff (not_nan : x.isNaN = false) :
    x.lt wordBound.neg = true ↔ x.units < -wordLimit * unitsPerOne := by
  have bound_not_nan : wordBound.neg.isNaN = false := by decide
  rw [lt_iff_units_lt not_nan bound_not_nan, units_neg_wordBound]

theorem inWordRange (not_nan : x.isNaN = false) (not_above : ¬ wordBound.le x = true)
    (not_below : ¬ x.lt wordBound.neg = true) : x.InWordRange := by
  rw [wordBound_le_iff not_nan, Int.not_le] at not_above
  rw [lt_neg_wordBound_iff not_nan, Int.not_lt] at not_below
  exact inWordRange_of_units not_nan not_below not_above

/-! ## Words -/

/-- A word that lies in the range is the whole part it is made of. -/
theorem toInt_toInt64 (not_nan : x.isNaN = false)
    (lower : -wordLimit ≤ x.units.tdiv unitsPerOne)
    (upper : x.units.tdiv unitsPerOne < wordLimit) :
    x.toInt64.toInt = x.units.tdiv unitsPerOne := by
  unfold toInt64
  dsimp only
  rw [not_nan, if_neg Bool.false_ne_true, if_neg lower.not_gt, if_neg upper.not_ge]
  exact Int64.toInt_ofInt_of_le lower upper

theorem compare_toInt (n k : Int64) : Ord.compare n k = Ord.compare n.toInt k.toInt := by
  show compareOfLessAndEq n k = compareOfLessAndEq n.toInt k.toInt
  simp only [compareOfLessAndEq, Int64.lt_iff_toInt_lt, Int64.toInt_inj]

/-- The sign of a number breaks a tie. -/
theorem tie_eq_compare (not_nan : x.isNaN = false) :
    (if zero.lt x then Ordering.lt else if x.lt zero then .gt else .eq) =
      Ord.compare 0 x.units := by
  have zero_not_nan : zero.isNaN = false := by decide
  have units_zero : zero.units = 0 := by decide +kernel
  simp only [lt_iff_units_lt zero_not_nan not_nan, lt_iff_units_lt not_nan zero_not_nan, units_zero]
  rcases lt_trichotomy 0 x.units with above | equal | below
  · rw [if_pos above, compare_lt_iff_lt.mpr above]
  · rw [← equal, if_neg (lt_irrefl 0), if_neg (lt_irrefl 0), compare_eq_iff_eq.mpr rfl]
  · rw [if_neg below.not_gt, if_pos below, compare_gt_iff_gt.mpr below]

/-- An integer is ordered by the whole part first and by what is left next. -/
theorem compare_tdiv_then (n units : ℤ) {one : ℤ} (pos : 0 < one) :
    (Ord.compare n (units.tdiv one)).then (Ord.compare 0 (units.tmod one)) =
      Ord.compare (n * one) units := by
  have division := Int.tdiv_mul_add_tmod units one
  have rest_lt := Int.tmod_lt_of_pos units pos
  have lt_rest := Int.lt_tmod_of_pos units pos
  generalize units.tdiv one = whole at *
  generalize units.tmod one = rest at *
  subst division
  rcases lt_trichotomy n whole with below | rfl | above
  · have step : (n + 1) * one ≤ whole * one := Int.mul_le_mul_of_nonneg_right below pos.le
    rw [compare_lt_iff_lt.mpr below, Ordering.lt_then, eq_comm, compare_lt_iff_lt]
    linarith
  · rw [compare_eq_iff_eq.mpr rfl, Ordering.eq_then]
    rcases lt_trichotomy 0 rest with positive | rfl | negative
    · rw [compare_lt_iff_lt.mpr positive, eq_comm, compare_lt_iff_lt]
      linarith
    · rw [compare_eq_iff_eq.mpr rfl, eq_comm, compare_eq_iff_eq, add_zero]
    · rw [compare_gt_iff_gt.mpr negative, eq_comm, compare_gt_iff_gt]
      linarith
  · have step : (whole + 1) * one ≤ n * one := Int.mul_le_mul_of_nonneg_right above pos.le
    rw [compare_gt_iff_gt.mpr above, Ordering.gt_then, eq_comm, compare_gt_iff_gt]
    linarith

theorem tdiv_lt_of_lt_mul {units bound one : ℤ} (bound_pos : 0 < bound) (pos : 0 < one)
    (below : units < bound * one) : units.tdiv one < bound := by
  rcases le_total 0 units with nonneg | nonpos
  · rw [Int.tdiv_eq_ediv_of_nonneg nonneg]
    exact Int.ediv_lt_of_lt_mul pos below
  · have whole_le := Int.tdiv_le_tdiv pos nonpos
    rw [Int.zero_tdiv] at whole_le
    exact Int.lt_of_le_of_lt whole_le bound_pos

/-- The whole part of a number in the range of words is a word. -/
theorem InWordRange.toInt_toInt64_trunc (range : x.InWordRange) :
    x.trunc.toInt64.toInt = x.units.tdiv unitsPerOne := by
  have pos : (0 : ℤ) < unitsPerOne := Int.natCast_pos.mpr unitsPerOne_pos
  have whole_eq : x.trunc.units.tdiv unitsPerOne = x.units.tdiv unitsPerOne := by
    rw [units_trunc range.finite, Int.mul_tdiv_cancel _ pos.ne']
  have trunc_not_nan := isNaN_of_isFinite (trunc_exact range.finite).2.2
  rw [← whole_eq]
  apply toInt_toInt64 trunc_not_nan
  · rw [whole_eq]
    exact Int.le_tdiv_of_mul_le pos range.lower
  · rw [whole_eq]
    exact tdiv_lt_of_lt_mul (by decide) pos range.upper

/-- The order of a word and a number is that of their units. -/
theorem compareInt_eq_compare_units (n : Int64) (not_nan : x.isNaN = false) :
    compareInt n x = some (Ord.compare (n.toInt * unitsPerOne) x.units) := by
  have pos : (0 : ℤ) < unitsPerOne := Int.natCast_pos.mpr unitsPerOne_pos
  unfold compareInt
  rw [if_neg (Bool.eq_false_iff.mp not_nan)]
  by_cases above : wordBound.le x = true
  · have word_lt := (toInt_mul_lt n).trans_le ((wordBound_le_iff not_nan).mp above)
    rw [if_pos above, compare_lt_iff_lt.mpr word_lt]
  by_cases below : x.lt wordBound.neg = true
  · have lt_word := ((lt_neg_wordBound_iff not_nan).mp below).trans_le (le_toInt_mul n)
    rw [if_neg above, if_pos below, compare_gt_iff_gt.mpr lt_word]
  have range := inWordRange not_nan above below
  obtain ⟨rest_eq, rest_finite⟩ := sub_trunc_exact range.finite
  rw [if_neg above, if_neg below]
  dsimp only
  rw [tie_eq_compare (isNaN_of_isFinite rest_finite), compare_toInt, range.toInt_toInt64_trunc,
    rest_eq, compare_tdiv_then _ _ pos]

/-! ## The order of what words and numbers stand for -/

theorem cmp_valueOfWord_finite (n : Int64) (x : Binary64) :
    cmp (valueOfWord n) (ofFraction x.finiteValue) =
      Ord.compare (n.toInt * unitsPerOne) x.units := by
  have pos : (0 : ℚ) < unitsPerOne := Nat.cast_pos.mpr unitsPerOne_pos
  calc cmp (valueOfWord n) (ofFraction x.finiteValue)
      = cmp (n.toInt : ℚ) x.finiteValue :=
        ofFraction_strictMono.cmp_map_eq _ _
    _ = cmp ((n.toInt : ℚ) * unitsPerOne) (x.finiteValue * unitsPerOne) :=
        ((strictMono_mul_right_of_pos pos).cmp_map_eq _ _).symm
    _ = cmp ((n.toInt * unitsPerOne : ℤ) : ℚ) (x.units : ℚ) := by
        rw [units_eq, Int.cast_mul, Int.cast_natCast]
    _ = Ord.compare (n.toInt * unitsPerOne) x.units := by
        rw [Int.cast_strictMono.cmp_map_eq, cmp_eq_compare]

/-- An infinity lies beyond all words. -/
theorem units_of_infinite (all_set : x.exponentField = 2047) (rest : x.fraction = 0) :
    if x.isNegative then x.units < -wordLimit * unitsPerOne
    else wordLimit * unitsPerOne < x.units := by
  have beyond : wordLimit * unitsPerOne < (x.magnitude : ℤ) := by
    rw [magnitude_of_infinite all_set rest, ← Nat.mul_assoc, Nat.cast_mul]
    exact Int.mul_lt_mul_of_pos_right (by decide +kernel) (Int.natCast_pos.mpr unitsPerOne_pos)
  unfold units
  split
  · rw [Int.neg_mul]
    omega
  · exact beyond

theorem compare_units_of_infinite (n : Int64) (all_set : x.exponentField = 2047)
    (rest : x.fraction = 0) :
    Ord.compare (n.toInt * unitsPerOne) x.units =
      cmp (valueOfWord n) (if x.isNegative then ⊥ else ⊤) := by
  have beyond := units_of_infinite all_set rest
  split at beyond
  · rename_i negative
    rw [if_pos negative, compare_gt_iff_gt.mpr (beyond.trans_le (le_toInt_mul n)), eq_comm,
      cmp_eq_gt_iff]
    exact bot_lt_ofFraction _
  · rename_i positive
    rw [if_neg positive, compare_lt_iff_lt.mpr ((toInt_mul_lt n).trans beyond), eq_comm,
      cmp_eq_lt_iff]
    exact ofFraction_lt_top _

/-- The units of a number are ordered as what it stands for. -/
theorem compare_units_eq_cmp (n : Int64) {v : WithBot (WithTop ℚ)} (stands : x.value? = some v) :
    Ord.compare (n.toInt * unitsPerOne) x.units = cmp (valueOfWord n) v := by
  unfold value? at stands
  split at stands
  · rename_i all_set
    split at stands
    · rename_i rest
      rw [← Option.some.inj stands]
      exact compare_units_of_infinite n all_set rest
    · cases stands
  · rw [← Option.some.inj stands, cmp_valueOfWord_finite]

/-- The comparison gives the order of what word and number stand for. -/
theorem compareInt_eq_map_cmp (n : Int64) (x : Binary64) :
    compareInt n x = x.value?.map (cmp (valueOfWord n)) := by
  cases stands : x.value? with
  | none =>
      unfold compareInt
      rw [if_pos ((value?_eq_none_iff x).mp stands), Option.map_none]
  | some v =>
      have not_nan : x.isNaN = false := by
        rw [← Bool.not_eq_true, ← value?_eq_none_iff, stands]
        exact Option.some_ne_none v
      rw [compareInt_eq_compare_units n not_nan, compare_units_eq_cmp n stands, Option.map_some]

/-- Within the range of words the whole part of a number and the word made of it stand for the
same. -/
theorem InWordRange.value?_trunc (range : x.InWordRange) :
    x.trunc.value? = some (valueOfWord x.trunc.toInt64) := by
  have pos : (0 : ℚ) < unitsPerOne := Nat.cast_pos.mpr unitsPerOne_pos
  have whole_eq : x.trunc.finiteValue = (x.units.tdiv unitsPerOne : ℤ) := by
    have units_eq := x.trunc.units_eq
    rw [units_trunc range.finite, Int.cast_mul, Int.cast_natCast] at units_eq
    exact (mul_right_cancel₀ pos.ne' units_eq).symm
  rw [value?_of_isFinite (trunc_exact range.finite).2.2, whole_eq, valueOfWord,
    range.toInt_toInt64_trunc]

end Binary64

end FilterQuery.Number

namespace FilterQuery.Value

open FilterQuery.Number

/-- Words and numbers are compared by what they stand for, whichever of them comes first.  Only a
number that stands for nothing has no order, and where the comparison turns the whole part of a
number into a word nothing is lost. -/
theorem compare_int_float_exact (n : Int64) (x : Binary64) :
    Binary64.compareInt n x = x.value?.map (cmp (Binary64.valueOfWord n)) ∧
      (Binary64.compareInt n x = none ↔ x.isNaN = true) ∧
      (x.isNaN = false → Binary64.wordBound.le x = false → x.lt Binary64.wordBound.neg = false →
        x.trunc.value? = some (Binary64.valueOfWord x.trunc.toInt64)) ∧
      (Value.int n).compare (.float x) = x.value?.map (cmp (Binary64.valueOfWord n)) ∧
      (Value.float x).compare (.int n) = x.value?.map (cmp · (Binary64.valueOfWord n)) := by
  have direct := Binary64.compareInt_eq_map_cmp n x
  refine ⟨direct, ?_, ?_, direct, ?_⟩
  · rw [direct, Option.map_eq_none_iff, Binary64.value?_eq_none_iff]
  · intro not_nan not_above not_below
    rw [← Bool.not_eq_true] at not_above not_below
    exact (Binary64.inWordRange not_nan not_above not_below).value?_trunc
  · show (Binary64.compareInt n x).map Ordering.swap = _
    rw [direct, Option.map_map]
    exact congrArg (x.value?.map ·) (funext fun v => cmp_swap (Binary64.valueOfWord n) v)

/-- A word that lies between two numbers is not rounded to one of them. -/
theorem compare_int_float_beyond_significands :
    let x : Binary64 := ⟨0x4340000000000000⟩
    x.isNaN = false ∧ Binary64.wordBound.le x = false ∧ x.lt Binary64.wordBound.neg = false ∧
      x.trunc.value? = some (Binary64.valueOfWord x.trunc.toInt64) ∧
      (Value.int 9007199254740993).compare (.float x) =
        x.value?.map (cmp (Binary64.valueOfWord 9007199254740993)) ∧
      (Value.int 9007199254740993).compare (.float x) = some .gt := by
  intro x
  have not_nan : x.isNaN = false := by decide
  have not_above : Binary64.wordBound.le x = false := by decide +kernel
  have not_below : x.lt Binary64.wordBound.neg = false := by decide +kernel
  obtain ⟨-, -, whole, direct, -⟩ := compare_int_float_exact 9007199254740993 x
  exact ⟨not_nan, not_above, not_below, whole not_nan not_above not_below, direct,
    by decide +kernel⟩

end FilterQuery.Value
