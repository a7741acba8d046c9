import FilterQuery.Number.Shortest
import Mathlib.Algebra.Group.Nat.Defs

/-!
# The shortest decimal of a number

Whatever grid it is looked for on, the decimal chosen for a number lies in the
rounding interval of the number.  Zero lies in no such interval, so the chosen
decimal has a digit.
-/

namespace FilterQuery.Number

theorem two_pow_pos (n : Nat) : 0 < Nat.pow 2 n :=
  Nat.two_pow_pos n

theorem ten_pow_pos (n : Nat) : 0 < Nat.pow 10 n :=
  Nat.pow_pos (by decide)

theorem ten_pow_add (m n : Nat) : Nat.pow 10 (m + n) = Nat.pow 10 m * 10 ^ n :=
  Nat.pow_add 10 m n

theorem mul_five_pow_ne_zero {m : Nat} (h : m ≠ 0) (n : Nat) : m * Nat.pow 5 n ≠ 0 :=
  Nat.mul_ne_zero h (Nat.ne_of_gt (Nat.pow_pos (by decide)))

namespace Binary64

theorem gap_pos (x : Binary64) : 0 < x.gap :=
  two_pow_pos _

/-- A number but zero is at least as far from zero as from the next number. -/
theorem gap_le_magnitude {x : Binary64} (h : x.magnitude ≠ 0) : x.gap ≤ x.magnitude := by
  unfold magnitude at h ⊢
  exact Nat.le_mul_of_pos_left _ (Nat.pos_of_ne_zero (Nat.ne_zero_of_mul_ne_zero_left h))

end Binary64

namespace Decimal

/-- The scaled distance between decimals of an exponent. -/
def grid (exponent : Int) : Nat :=
  4 * Binary64.unitsPerOne * Nat.pow 10 (exponent + scalePlaces).toNat

theorem not_holds_zero {x : Binary64} (h : x.magnitude ≠ 0) : (interval x).holds 0 = false := by
  have hlower : 0 < (interval x).lower := by
    have hgap := x.gap_pos
    have hle := Binary64.gap_le_magnitude h
    refine Nat.mul_pos ?_ (ten_pow_pos _)
    split <;> omega
  unfold Interval.holds
  split
  · simp only [Bool.and_eq_false_imp, decide_eq_true_eq]
    omega
  · simp only [Nat.not_lt_zero, decide_false, Bool.false_and]

/-- Zero is the number that zero identifies. -/
theorem holds_zero {x : Binary64} (h : x.magnitude = 0) : (interval x).holds 0 = true := by
  have hfraction : x.fraction = 0 := by
    have hfactor := (Nat.mul_eq_zero.mp h).resolve_right (Nat.ne_of_gt x.gap_pos)
    split at hfactor
    · exact hfactor
    · unfold Binary64.leadingBit at hfactor
      omega
  unfold Interval.holds interval
  simp [h, hfraction]

/-- The decimal chosen on a grid identifies the number. -/
theorem holds_of_onGrid? {tie : Tie} {x : Binary64} {exponent : Int} {d : Decimal}
    (h : onGrid? tie x exponent = some d) :
    d.exponent = exponent ∧ (interval x).holds (d.digits * grid exponent) = true := by
  unfold onGrid? at h
  dsimp only at h
  rw [← grid] at h
  generalize grid exponent = width, interval x = range at h ⊢
  split at h
  · rename_i hboth
    rw [Bool.and_eq_true] at hboth
    have heither : ∀ higher : Bool, range.holds ((if higher then scaled x / width + 1
        else scaled x / width) * width) = true := by
      rintro (_ | _)
      · exact hboth.1
      · exact hboth.2
    cases h
    exact ⟨rfl, heither _⟩
  · split at h
    · rename_i hlower
      cases h
      exact ⟨rfl, hlower⟩
    · split at h
      · rename_i hupper
        cases h
        exact ⟨rfl, hupper⟩
      · cases h

theorem digits_ne_zero_of_onGrid? {tie : Tie} {x : Binary64} {exponent : Int} {d : Decimal}
    (hx : x.magnitude ≠ 0) (h : onGrid? tie x exponent = some d) : d.digits ≠ 0 := by
  intro hzero
  have hholds := (holds_of_onGrid? h).2
  rw [hzero, Nat.zero_mul, not_holds_zero hx] at hholds
  cases hholds

/-! ## Trailing zeros -/

/-- Zeros that are stripped go into the exponent. -/
theorem exists_stripZeros (n : Nat) (d : Decimal) :
    ∃ k ≤ n, (stripZeros n d).exponent = d.exponent + k ∧
      (stripZeros n d).digits * 10 ^ k = d.digits := by
  induction n generalizing d with
  | zero => exact ⟨0, Nat.le_refl 0, by simp [stripZeros], by simp [stripZeros]⟩
  | succ n ih =>
      unfold stripZeros
      split
      · rename_i hzero
        obtain ⟨k, hk, hexponent, hdigits⟩ := ih ⟨d.digits / 10, d.exponent + 1⟩
        refine ⟨k + 1, Nat.succ_le_succ hk, ?_, ?_⟩
        · rw [hexponent]
          dsimp only
          omega
        · rw [Nat.pow_succ, ← Nat.mul_assoc, hdigits]
          exact Nat.div_mul_cancel (Nat.dvd_of_mod_eq_zero hzero)
      · exact ⟨0, Nat.zero_le _, by simp, by simp⟩

theorem grid_add {exponent : Int} (h : -(scalePlaces : Int) ≤ exponent) (k : Nat) :
    grid (exponent + k) = grid exponent * 10 ^ k := by
  have hplaces : (exponent + k + scalePlaces).toNat = (exponent + scalePlaces).toNat + k := by
    omega
  unfold grid
  rw [hplaces, ten_pow_add, ← Nat.mul_assoc]

/-- The scaled distance between integers. -/
theorem grid_zero : grid 0 = 4 * Binary64.unitsPerOne * Nat.pow 10 scalePlaces := by
  have hplaces : (0 + (scalePlaces : Int)).toNat = scalePlaces := by
    omega
  rw [grid, hplaces]

/-- Stripping zeros does not change the decimal, unless it is finer than all grids. -/
theorem digits_mul_grid_stripZeros (n : Nat) {d : Decimal}
    (h : -(scalePlaces : Int) ≤ d.exponent) :
    (stripZeros n d).digits * grid (stripZeros n d).exponent = d.digits * grid d.exponent := by
  obtain ⟨k, -, hexponent, hdigits⟩ := exists_stripZeros n d
  rw [hexponent, grid_add h, ← hdigits, Nat.mul_right_comm, Nat.mul_assoc]

/-- The shortest decimal of a number but zero has a digit. -/
theorem digits_shortest_ne_zero {tie : Tie} {x : Binary64} (hx : x.magnitude ≠ 0) :
    (shortest tie x).digits ≠ 0 := by
  unfold shortest
  dsimp only
  split
  · rename_i d hfound
    obtain ⟨n, -, hgrid⟩ := List.exists_of_findSome?_eq_some hfound
    obtain ⟨k, -, -, hdigits⟩ := exists_stripZeros 17 d
    have hne := digits_ne_zero_of_onGrid? hx hgrid
    rw [← hdigits] at hne
    exact Nat.ne_zero_of_mul_ne_zero_left hne
  · apply mul_five_pow_ne_zero hx

/-- The shortest decimal identifies the number, if its last digit is not too far behind the
point. -/
theorem holds_shortest {tie : Tie} {x : Binary64} (h : -300 ≤ (shortest tie x).exponent) :
    (interval x).holds ((shortest tie x).digits * grid (shortest tie x).exponent) = true := by
  unfold shortest at h ⊢
  dsimp only at h ⊢
  split
  · rename_i d hfound
    rw [hfound] at h
    obtain ⟨n, -, hgrid⟩ := List.exists_of_findSome?_eq_some hfound
    obtain ⟨hexponent, hholds⟩ := holds_of_onGrid? hgrid
    obtain ⟨k, hk, hstripped, -⟩ := exists_stripZeros 17 d
    have hfine : -(scalePlaces : Int) ≤ d.exponent := by
      unfold scalePlaces
      dsimp only at h
      omega
    rw [digits_mul_grid_stripZeros 17 hfine, hexponent]
    exact hholds
  · rename_i hnone
    rw [hnone] at h
    dsimp only at h
    omega

end Decimal

end FilterQuery.Number
