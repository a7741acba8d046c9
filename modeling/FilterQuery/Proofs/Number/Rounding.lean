import FilterQuery.Proofs.Number.Shortest
import Mathlib.Data.Nat.Log
import Mathlib.Tactic.Linarith
import Mathlib.Tactic.Ring

/-!
# Rounding to the nearest number

The bits of a number below its sign count the numbers from zero on: a *level*, which is
the power of two between neighbours, and a significand of 53 bits.  A ratio in the
rounding interval of a number is rounded to its level and significand.  Only below a
power of two the ratio can lie on the next lower level; it is then rounded up to the end
of that level, which has the same bits.
-/

namespace FilterQuery.Number

namespace Binary64

/-! ## Bits -/

theorem toNat_bits_ofSigned (negative : Bool) {unsigned : Nat} (h : unsigned < signBit) :
    (ofSigned negative unsigned).bits.toNat = (if negative then signBit else 0) + unsigned := by
  refine UInt64.toNat_ofNat_of_lt' ?_
  have hsize : UInt64.size = 2 * signBit := rfl
  rw [hsize]
  unfold signBit at h ⊢
  cases negative <;> simp only [if_true, if_false, Bool.false_eq_true] <;> omega

@[simp]
theorem unsignedBits_ofSigned (negative : Bool) {unsigned : Nat} (h : unsigned < signBit) :
    (ofSigned negative unsigned).unsignedBits = unsigned := by
  unfold unsignedBits
  rw [toNat_bits_ofSigned negative h]
  cases negative with
  | true => rw [if_pos rfl, Nat.add_mod_left, Nat.mod_eq_of_lt h]
  | false => rw [if_neg Bool.false_ne_true, Nat.zero_add, Nat.mod_eq_of_lt h]

@[simp]
theorem isNegative_ofSigned (negative : Bool) {unsigned : Nat} (h : unsigned < signBit) :
    (ofSigned negative unsigned).isNegative = negative := by
  unfold isNegative
  rw [toNat_bits_ofSigned negative h]
  cases negative with
  | true => exact decide_eq_true (Nat.le_add_right signBit unsigned)
  | false =>
      rw [if_neg Bool.false_ne_true, Nat.zero_add]
      exact decide_eq_false (Nat.not_le.mpr h)

theorem unsignedBits_lt (x : Binary64) : x.unsignedBits < signBit :=
  Nat.mod_lt _ (by decide)

/-- A number is its sign and its other bits. -/
@[simp]
theorem ofSigned_self (x : Binary64) : ofSigned x.isNegative x.unsignedBits = x := by
  obtain ⟨bits⟩ := x
  have hbits : bits.toNat < 2 * signBit := bits.toNat_lt
  have hsum : (if decide (signBit ≤ bits.toNat) = true then signBit else 0) +
      bits.toNat % signBit = bits.toNat := by
    unfold signBit at hbits ⊢
    by_cases h : 0x8000000000000000 ≤ bits.toNat
    · rw [if_pos (decide_eq_true h)]
      omega
    · rw [if_neg (by simpa using h)]
      omega
  unfold ofSigned isNegative unsignedBits
  rw [hsum, UInt64.ofNat_toNat]

/-- The number with the sign bit set as given. -/
theorem neg_ofSigned (negative : Bool) {unsigned : Nat} (h : unsigned < signBit) :
    (ofSigned negative unsigned).neg = ofSigned (!negative) unsigned := by
  rw [neg, isNegative_ofSigned negative h, unsignedBits_ofSigned negative h]

/-! ## Levels -/

/-- The power of two by which a number differs from its neighbour away from zero. -/
def level (x : Binary64) : Nat :=
  x.exponentField - 1

/-- The number of gaps of its level that a number is away from zero. -/
def significand (x : Binary64) : Nat :=
  if x.exponentField = 0 then x.fraction else leadingBit + x.fraction

theorem gap_eq (x : Binary64) : x.gap = 2 ^ x.level :=
  rfl

theorem magnitude_eq (x : Binary64) : x.magnitude = x.significand * 2 ^ x.level :=
  rfl

theorem fraction_lt (x : Binary64) : x.fraction < leadingBit :=
  Nat.mod_lt _ (by decide)

theorem significand_lt (x : Binary64) : x.significand < 2 * leadingBit := by
  have hfraction := x.fraction_lt
  unfold significand
  split <;> omega

/-- Above the lowest level there is a leading bit. -/
theorem leadingBit_le_significand {x : Binary64} (h : x.level ≠ 0) :
    leadingBit ≤ x.significand := by
  unfold level at h
  unfold significand
  rw [if_neg (by omega)]
  exact Nat.le_add_right _ _

/-- The bits count the numbers from zero on. -/
theorem unsignedBits_eq (x : Binary64) :
    x.unsignedBits = x.level * leadingBit + x.significand := by
  have hbits : x.exponentField * leadingBit + x.fraction = x.unsignedBits :=
    Nat.div_add_mod' x.unsignedBits leadingBit
  unfold level significand
  split
  · rename_i hzero
    rw [← hbits, hzero]
  · rename_i hfield
    obtain ⟨before, hbefore⟩ := Nat.exists_eq_succ_of_ne_zero hfield
    rw [← hbits, hbefore, Nat.succ_mul, Nat.succ_sub_one]
    omega

/-- Every level and significand are those of a number. -/
theorem level_significand_ofSigned (negative : Bool) {level significand : Nat}
    (hsignificand : significand < 2 * leadingBit)
    (hleading : level ≠ 0 → leadingBit ≤ significand)
    (hfinite : level * leadingBit + significand < infinityBits) :
    (ofSigned negative (level * leadingBit + significand)).level = level ∧
      (ofSigned negative (level * leadingBit + significand)).significand = significand := by
  have hbits : level * leadingBit + significand < signBit := by
    unfold infinityBits leadingBit at hfinite
    unfold signBit leadingBit
    omega
  have hunsigned := unsignedBits_ofSigned negative hbits
  generalize ofSigned negative (level * leadingBit + significand) = x at hunsigned ⊢
  have hcount := x.unsignedBits_eq
  have hlt := x.significand_lt
  have hle := leadingBit_le_significand (x := x)
  unfold leadingBit at *
  omega

/-! ## Quotients -/

/-- A quotient is rounded to the integer whose half-open neighbourhood it lies in; the ends
belong to even integers. -/
theorem roundQuotient_eq {numerator denominator n : Nat} (hpos : 0 < denominator)
    (hlower : 2 * n * denominator ≤ 2 * numerator + denominator)
    (hupper : 2 * numerator ≤ 2 * n * denominator + denominator)
    (hties : n % 2 = 1 → 2 * n * denominator ≠ 2 * numerator + denominator ∧
      2 * numerator ≠ 2 * n * denominator + denominator) :
    roundQuotient numerator denominator = n := by
  have hdivision := Nat.div_add_mod numerator denominator
  have hremainder := Nat.mod_lt numerator hpos
  unfold roundQuotient
  generalize numerator / denominator = quotient at hdivision ⊢
  generalize numerator % denominator = remainder at hdivision hremainder ⊢
  subst hdivision
  -- The bounds leave only the two integers around the ratio.
  have hnear : n = quotient ∨ n = quotient + 1 := by
    have hle : n ≤ quotient + 1 := by
      by_contra hgt
      have := Nat.mul_le_mul_right denominator (show quotient + 2 ≤ n by omega)
      linarith
    have hge : quotient ≤ n := by
      by_contra hlt
      have := Nat.mul_le_mul_right denominator (show n + 1 ≤ quotient by omega)
      linarith
    omega
  rcases Nat.lt_trichotomy (2 * remainder) denominator with hless | htie | hmore
  · rw [Nat.compare_eq_lt.mpr hless]
    rcases hnear with rfl | rfl
    · rfl
    · linarith
  · rw [Nat.compare_eq_eq.mpr htie]
    have heven : n % 2 = 0 := by
      by_contra hodd
      have hstrict := hties (by omega)
      rcases hnear with rfl | rfl
      · exact hstrict.2 (by linarith)
      · exact hstrict.1 (by linarith)
    dsimp only
    omega
  · rw [Nat.compare_eq_gt.mpr hmore]
    rcases hnear with rfl | rfl
    · linarith
    · rfl

/-- The excess of a magnitude is the level it lies on. -/
theorem excessBits_eq {magnitude level : Nat} (hlower : level ≠ 0 → 2 ^ (52 + level) ≤ magnitude)
    (hupper : magnitude < 2 ^ (53 + level)) : excessBits magnitude = level := by
  unfold excessBits
  by_cases hzero : magnitude = 0
  · have hlevel : level = 0 := by
      by_contra hlevel
      have hpos := Nat.two_pow_pos (52 + level)
      have hle := hlower hlevel
      omega
    rw [hzero, hlevel]
    rfl
  · have hlog := (Nat.log2_lt hzero).mpr hupper
    by_cases hlevel : level = 0
    · omega
    · have hle := (Nat.le_log2 hzero).mpr (hlower hlevel)
      omega

/-! ## Ratios -/

/-- A ratio in the neighbourhood of a significand on a level.  Its ends belong to even
significands, and below the first significand of a level it is half as wide. -/
structure IsNear (numerator denominator level significand : Nat) : Prop where
  lower : 2 * significand * (2 ^ level * denominator) ≤ 2 * numerator + 2 ^ level * denominator
  upper : 2 * numerator ≤ 2 * significand * (2 ^ level * denominator) + 2 ^ level * denominator
  ties : significand % 2 = 1 →
    2 * significand * (2 ^ level * denominator) ≠ 2 * numerator + 2 ^ level * denominator ∧
      2 * numerator ≠ 2 * significand * (2 ^ level * denominator) + 2 ^ level * denominator
  edge : level ≠ 0 → significand = leadingBit →
    4 * significand * (2 ^ level * denominator) ≤ 4 * numerator + 2 ^ level * denominator

variable {numerator denominator level significand : Nat}

/-- A ratio on the level of its significand is rounded to the significand. -/
theorem IsNear.roundQuotient_of_le (h : IsNear numerator denominator level significand)
    (hpos : 0 < denominator) (hsignificand : significand < 2 * leadingBit)
    (hlevel : level ≠ 0 → leadingBit * (2 ^ level * denominator) ≤ numerator) :
    excessBits (numerator / denominator) = level ∧
      roundQuotient numerator (denominator * Nat.pow 2 level) = significand := by
  have hwidth : 0 < 2 ^ level * denominator := Nat.mul_pos (Nat.two_pow_pos level) hpos
  have hleading : leadingBit = 2 ^ 52 := rfl
  refine ⟨excessBits_eq (fun hne => ?_) ?_, ?_⟩
  · rw [Nat.le_div_iff_mul_le hpos, Nat.pow_add, Nat.mul_assoc, ← hleading]
    exact hlevel hne
  · rw [Nat.div_lt_iff_lt_mul hpos, Nat.pow_add, Nat.mul_assoc,
      show (2 : Nat) ^ 53 = 2 * leadingBit from rfl]
    have hupper := h.upper
    have hle := Nat.mul_le_mul_right (2 ^ level * denominator)
      (show significand + 1 ≤ 2 * leadingBit by omega)
    generalize 2 ^ level * denominator = width at *
    linarith
  · rw [Nat.mul_comm denominator]
    exact roundQuotient_eq hwidth h.lower h.upper h.ties

/-- A ratio below the first significand of a level is rounded up to the end of the level
before it. -/
theorem IsNear.roundQuotient_of_lt {before : Nat}
    (h : IsNear numerator denominator (before + 1) significand) (hpos : 0 < denominator)
    (hleading : leadingBit ≤ significand)
    (hbelow : numerator < leadingBit * (2 ^ (before + 1) * denominator)) :
    significand = leadingBit ∧ excessBits (numerator / denominator) = before ∧
      roundQuotient numerator (denominator * Nat.pow 2 before) = 2 * leadingBit := by
  have hwidth : 0 < 2 ^ before * denominator := Nat.mul_pos (Nat.two_pow_pos before) hpos
  have hdouble : 2 ^ (before + 1) * denominator = 2 * (2 ^ before * denominator) := by
    rw [Nat.pow_succ]
    ring
  have hfirst : significand = leadingBit := by
    by_contra hne
    have hle := Nat.mul_le_mul_right (2 ^ (before + 1) * denominator)
      (show leadingBit + 1 ≤ significand by omega)
    have hlower := h.lower
    generalize 2 ^ (before + 1) * denominator = width at *
    linarith
  have hedge := h.edge (Nat.succ_ne_zero before) hfirst
  rw [hfirst, hdouble] at hedge
  rw [hdouble] at hbelow
  have hbit : (2 : Nat) ^ 52 = leadingBit := rfl
  have hlarge : leadingBit * (2 ^ before * denominator) ≤ numerator := by
    have hmany : 1 ≤ leadingBit := by decide
    have hle := Nat.mul_le_mul_right (2 ^ before * denominator) hmany
    generalize 2 ^ before * denominator = width at *
    linarith
  refine ⟨hfirst, excessBits_eq (fun _ => ?_) ?_, ?_⟩
  · rw [Nat.le_div_iff_mul_le hpos, Nat.pow_add, Nat.mul_assoc, hbit]
    exact hlarge
  · rw [Nat.div_lt_iff_lt_mul hpos, Nat.pow_add, Nat.mul_assoc,
      show (2 : Nat) ^ 53 = 2 * leadingBit from rfl]
    linarith
  · rw [Nat.mul_comm denominator]
    refine roundQuotient_eq hwidth ?_ ?_ (fun hodd => absurd hodd (by decide))
    · show 2 * (2 * leadingBit) * (2 ^ before * denominator) ≤
        2 * numerator + 2 ^ before * denominator
      linarith
    · show 2 * numerator ≤
        2 * (2 * leadingBit) * (2 ^ before * denominator) + 2 ^ before * denominator
      linarith

/-- A ratio near a significand on a level is rounded to the bits of that number. -/
theorem ofRatio_of_isNear {numerator denominator level significand : Nat} (negative : Bool)
    (h : IsNear (numerator * unitsPerOne) denominator level significand)
    (hpos : 0 < denominator) (hsignificand : significand < 2 * leadingBit)
    (hleading : level ≠ 0 → leadingBit ≤ significand)
    (hfinite : level * leadingBit + significand < infinityBits) :
    ofRatio negative numerator denominator =
      ofSigned negative (level * leadingBit + significand) := by
  rw [ofRatio]
  refine congrArg (ofSigned negative) ?_
  generalize numerator * unitsPerOne = scaled at *
  by_cases hlevel : level ≠ 0 → leadingBit * (2 ^ level * denominator) ≤ scaled
  · obtain ⟨hexcess, hrounded⟩ := h.roundQuotient_of_le hpos hsignificand hlevel
    rw [hexcess, hrounded, Nat.min_eq_left (Nat.le_of_lt hfinite)]
  · -- The ratio lies on the level before, whose last significand has the same bits.
    obtain ⟨hne, hbelow⟩ := not_forall.mp hlevel
    obtain ⟨before, rfl⟩ := Nat.exists_eq_add_one_of_ne_zero hne
    obtain ⟨rfl, hexcess, hrounded⟩ :=
      h.roundQuotient_of_lt hpos (hleading hne) (Nat.not_le.mp hbelow)
    have hend : (before + 1) * leadingBit + leadingBit = before * leadingBit + 2 * leadingBit := by
      ring
    rw [hend] at hfinite ⊢
    rw [hexcess, hrounded, Nat.min_eq_left (Nat.le_of_lt hfinite)]

/-! ## Rounding intervals -/

theorem significand_mod_two (x : Binary64) : x.significand % 2 = x.fraction % 2 := by
  unfold significand leadingBit
  split
  · rfl
  · omega

/-- How far the rounding interval goes down, in quarters of units. -/
def lowerQuarters (x : Binary64) : Nat :=
  if x.fraction = 0 ∧ 1 < x.exponentField then x.gap else 2 * x.gap

theorem lowerQuarters_le (x : Binary64) : x.lowerQuarters ≤ 2 * x.gap := by
  unfold lowerQuarters
  split <;> omega

theorem lowerQuarters_of_first {x : Binary64} (hlevel : x.level ≠ 0)
    (hfirst : x.significand = leadingBit) : x.lowerQuarters = x.gap := by
  unfold level at hlevel
  unfold significand at hfirst
  rw [if_neg (by omega)] at hfirst
  exact if_pos (by omega)

section Scaling

variable {real scaled denominator places : Nat}

/-- Bounds on a scaled ratio are bounds on its numerator. -/
theorem mul_le_real_iff (hpos : 0 < denominator) (hplaces : 0 < places)
    (hreal : real * denominator = scaled * places) (bound : Nat) :
    bound * places ≤ real ↔ bound * denominator ≤ scaled := by
  rw [← Nat.mul_le_mul_right_iff hpos, hreal, Nat.mul_right_comm,
    Nat.mul_le_mul_right_iff hplaces]

theorem real_le_mul_iff (hpos : 0 < denominator) (hplaces : 0 < places)
    (hreal : real * denominator = scaled * places) (bound : Nat) :
    real ≤ bound * places ↔ scaled ≤ bound * denominator := by
  rw [← Nat.mul_le_mul_right_iff hpos, hreal, Nat.mul_right_comm,
    Nat.mul_le_mul_right_iff hplaces]

end Scaling

/-- The bounds of a decimal in a rounding interval; they are strict unless the significand is
even. -/
theorem bounds_of_holds {x : Binary64} {real scaled denominator : Nat} (hpos : 0 < denominator)
    (h : (Decimal.interval x).holds real = true)
    (hreal : real * denominator = scaled * Nat.pow 10 Decimal.scalePlaces) :
    (4 * x.magnitude - x.lowerQuarters) * denominator ≤ scaled ∧
      scaled ≤ (4 * x.magnitude + 2 * x.gap) * denominator ∧
      (x.significand % 2 = 1 →
        (4 * x.magnitude - x.lowerQuarters) * denominator < scaled ∧
          scaled < (4 * x.magnitude + 2 * x.gap) * denominator) := by
  have hlower := mul_le_real_iff hpos (ten_pow_pos Decimal.scalePlaces) hreal
  have hupper := real_le_mul_iff hpos (ten_pow_pos Decimal.scalePlaces) hreal
  unfold Decimal.Interval.holds Decimal.interval at h
  rw [← lowerQuarters] at h
  rw [significand_mod_two, ← hlower, ← hupper, ← Nat.not_le, ← hupper, ← Nat.not_le, ← hlower,
    Nat.not_le, Nat.not_le]
  split at h
  · rename_i heven
    have hfraction : x.fraction % 2 = 0 := of_decide_eq_true heven
    simp only [Bool.and_eq_true, decide_eq_true_eq] at h
    exact ⟨h.1, h.2, fun hodd => by omega⟩
  · simp only [Bool.and_eq_true, decide_eq_true_eq] at h
    exact ⟨Nat.le_of_lt h.1, Nat.le_of_lt h.2, fun _ => h⟩

/-- A decimal in the rounding interval of a number is near its significand. -/
theorem isNear_of_holds {x : Binary64} {real numerator denominator : Nat}
    (hpos : 0 < denominator) (h : (Decimal.interval x).holds real = true)
    (hreal : real * denominator = 4 * numerator * Nat.pow 10 Decimal.scalePlaces) :
    IsNear numerator denominator x.level x.significand := by
  obtain ⟨hlower, hupper, hties⟩ := bounds_of_holds hpos h hreal
  have hmagnitude : x.magnitude * denominator =
      x.significand * (2 ^ x.level * denominator) := by
    rw [magnitude_eq, Nat.mul_assoc]
  have hgap : x.gap * denominator = 2 ^ x.level * denominator := by
    rw [gap_eq]
  have hquarters := Nat.mul_le_mul_right denominator x.lowerQuarters_le
  rw [Nat.mul_assoc, hgap] at hquarters
  rw [Nat.sub_mul, Nat.mul_assoc, hmagnitude] at hlower hties
  rw [Nat.add_mul, Nat.mul_assoc, Nat.mul_assoc, hmagnitude, hgap] at hupper hties
  have hedge : x.level ≠ 0 → x.significand = leadingBit →
      x.lowerQuarters * denominator = 2 ^ x.level * denominator := by
    intro hlevel hfirst
    rw [lowerQuarters_of_first hlevel hfirst, hgap]
  generalize x.lowerQuarters * denominator = quarters at *
  constructor
  · rw [Nat.mul_assoc]
    omega
  · rw [Nat.mul_assoc]
    omega
  · intro hodd
    have hstrict := hties hodd
    rw [Nat.mul_assoc]
    omega
  · intro hlevel hfirst
    have hnarrow := hedge hlevel hfirst
    rw [Nat.mul_assoc]
    omega

/-- The numbers are finite whose bits lie below those of the infinities. -/
theorem isFinite_iff (x : Binary64) : x.isFinite = true ↔ x.unsignedBits < infinityBits :=
  decide_eq_true_iff

/-- Every decimal in the rounding interval of a finite number is rounded to that number. -/
theorem ofRatio_of_holds {x : Binary64} {real numerator denominator : Nat}
    (hfinite : x.isFinite = true) (hpos : 0 < denominator)
    (h : (Decimal.interval x).holds real = true)
    (hreal : real * denominator =
      4 * (numerator * unitsPerOne) * Nat.pow 10 Decimal.scalePlaces) (negative : Bool) :
    ofRatio negative numerator denominator = ofSigned negative x.unsignedBits := by
  have hbits := (isFinite_iff x).mp hfinite
  rw [unsignedBits_eq] at hbits ⊢
  exact ofRatio_of_isNear negative (isNear_of_holds hpos h hreal) hpos x.significand_lt
    leadingBit_le_significand hbits

/-! ## Exact numbers -/

/-- The logarithm of one in units. -/
def unitPlaces : Nat := 1074

theorem unitsPerOne_eq : unitsPerOne = 2 ^ unitPlaces := by
  decide +kernel

theorem unitsPerOne_pos : 0 < unitsPerOne := by
  rw [unitsPerOne_eq]
  exact Nat.two_pow_pos _

/-- A ratio that is a significand on a level is near it. -/
theorem isNear_of_eq {numerator denominator level significand : Nat} (hpos : 0 < denominator)
    (h : numerator = significand * (2 ^ level * denominator)) :
    IsNear numerator denominator level significand := by
  have hwidth : 0 < 2 ^ level * denominator := Nat.mul_pos (Nat.two_pow_pos level) hpos
  subst h
  constructor <;> simp only [Nat.mul_assoc] <;> omega

/-- A significand with enough zero bits behind it to have its leading bit. -/
theorem exists_shift {a : Nat} (hpos : 0 < a) (hlt : a < 2 * leadingBit) :
    ∃ shift ≤ 52, leadingBit ≤ a * 2 ^ shift ∧ a * 2 ^ shift < 2 * leadingBit := by
  have hne := Nat.ne_of_gt hpos
  have hlog : a.log2 ≤ 52 := by
    have hlog := (Nat.log2_lt hne).mpr (show a < 2 ^ 53 from hlt)
    omega
  refine ⟨52 - a.log2, Nat.sub_le _ _, ?_, ?_⟩
  · have hle := Nat.mul_le_mul_right (2 ^ (52 - a.log2)) (Nat.log2_self_le hne)
    rw [← Nat.pow_add, Nat.add_sub_cancel' hlog] at hle
    exact hle
  · have hless := Nat.mul_lt_mul_of_pos_right (Nat.lt_log2_self (n := a))
      (Nat.two_pow_pos (52 - a.log2))
    rw [← Nat.pow_add, show a.log2 + 1 + (52 - a.log2) = 53 by omega] at hless
    exact hless

/-- A number of 53 bits with zero bits behind it is a significand on a level. -/
theorem exists_level_significand {a : Nat} (ha : a < 2 * leadingBit) (b : Nat) :
    ∃ level significand, significand < 2 * leadingBit ∧ (level ≠ 0 → leadingBit ≤ significand) ∧
      level ≤ b ∧ a * 2 ^ b = significand * 2 ^ level := by
  by_cases hzero : a = 0
  · exact ⟨0, 0, by decide, fun h => absurd rfl h, Nat.zero_le b, by rw [hzero]; simp⟩
  · obtain ⟨shift, -, hleading, hlt⟩ := exists_shift (Nat.pos_of_ne_zero hzero) ha
    by_cases hshift : shift ≤ b
    · refine ⟨b - shift, a * 2 ^ shift, hlt, fun _ => hleading, Nat.sub_le b shift, ?_⟩
      rw [Nat.mul_assoc, ← Nat.pow_add, Nat.add_sub_cancel' hshift]
    · have hless : a * 2 ^ b ≤ a * 2 ^ shift :=
        Nat.mul_le_mul_left a (Nat.pow_le_pow_right (by decide) (by omega))
      exact ⟨0, a * 2 ^ b, Nat.lt_of_le_of_lt hless hlt, fun h => absurd rfl h, Nat.zero_le b,
        (Nat.mul_one _).symm⟩

/-- A ratio that is a significand on a level, in units, is not rounded. -/
theorem ofRatio_of_eq (negative : Bool) {numerator denominator level significand : Nat}
    (hpos : 0 < denominator) (hlt : significand < 2 * leadingBit)
    (hleading : level ≠ 0 → leadingBit ≤ significand)
    (hfinite : level * leadingBit + significand < infinityBits)
    (h : numerator * unitsPerOne = significand * 2 ^ level * denominator) :
    (ofRatio negative numerator denominator).magnitude = significand * 2 ^ level ∧
      (ofRatio negative numerator denominator).isNegative = negative ∧
      (ofRatio negative numerator denominator).isFinite = true := by
  have hsign : level * leadingBit + significand < signBit :=
    Nat.lt_trans hfinite (by decide)
  obtain ⟨hlevel, hsignificand⟩ := level_significand_ofSigned negative hlt hleading hfinite
  rw [Nat.mul_assoc] at h
  rw [ofRatio_of_isNear negative (isNear_of_eq hpos h) hpos hlt hleading hfinite, magnitude_eq,
    hlevel, hsignificand, isFinite_iff, unsignedBits_ofSigned negative hsign]
  exact ⟨rfl, isNegative_ofSigned negative hsign, hfinite⟩

/-- A ratio that is a number of 53 bits with zero bits behind it, in units, is not rounded. -/
theorem ofRatio_exact (negative : Bool) {numerator denominator a b : Nat} (hpos : 0 < denominator)
    (ha : a < 2 * leadingBit) (hb : b ≤ 1974)
    (h : numerator * unitsPerOne = a * 2 ^ b * denominator) :
    (ofRatio negative numerator denominator).magnitude = a * 2 ^ b ∧
      (ofRatio negative numerator denominator).isNegative = negative ∧
      (ofRatio negative numerator denominator).isFinite = true := by
  obtain ⟨level, significand, hlt, hleading, hlevel, heq⟩ := exists_level_significand ha b
  have hfinite : level * leadingBit + significand < infinityBits := by
    have hle := Nat.mul_le_mul_right leadingBit (hlevel.trans hb)
    unfold infinityBits leadingBit at *
    omega
  rw [heq] at h ⊢
  exact ofRatio_of_eq negative hpos hlt hleading hfinite h

/-- Integers of 53 bits with some zero bits behind them are numbers. -/
theorem ofInt_exact {a b : Nat} (ha : a < 2 * leadingBit) (hb : b ≤ 900) :
    (ofInt (a * 2 ^ b : Nat)).magnitude = a * 2 ^ b * unitsPerOne ∧
      (ofInt (a * 2 ^ b : Nat)).isNegative = false := by
  have hratio : ofInt (a * 2 ^ b : Nat) = ofRatio false (a * 2 ^ b) 1 := by
    unfold ofInt
    rw [Int.natAbs_natCast, decide_eq_false (Int.not_lt.mpr (Int.natCast_nonneg _))]
  have hunits : a * 2 ^ b * unitsPerOne = a * 2 ^ (b + unitPlaces) := by
    rw [unitsPerOne_eq, Nat.mul_assoc, ← Nat.pow_add]
  have hplaces : b + unitPlaces ≤ 1974 := by
    unfold unitPlaces
    omega
  have hexact := ofRatio_exact false (by decide) ha hplaces (hunits.trans (Nat.mul_one _).symm)
  rw [hratio, hunits]
  exact ⟨hexact.1, hexact.2.1⟩

end Binary64

end FilterQuery.Number
