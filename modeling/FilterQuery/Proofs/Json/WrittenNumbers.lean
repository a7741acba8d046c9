import FilterQuery.Json.Writer
import FilterQuery.Proofs.Json.Numerals
import FilterQuery.Proofs.Number.Shortest

/-!
# Written numbers

The writer spells every number as a numeral.  A whole number is its digits; a real
is the digits of its shortest decimal with a point among them or an exponent behind
them, so that no real is read back as a whole number.
-/

namespace FilterQuery.Json

open FilterQuery.Number

namespace Numeral

/-! ## Whole numbers -/

/-- The numeral of a whole number. -/
def ofWhole (n : Int) : Numeral where
  negative := n < 0
  wholeDigits := toDigits n.natAbs
  places := none
  exponent := none

theorem ofWhole_wellFormed (n : Int) : (ofWhole n).WellFormed where
  whole := toDigits_isRun n.natAbs
  leading hzero := by
    by_cases h : n.natAbs = 0
    · simp only [ofWhole, h]
      rfl
    · exact absurd hzero (head?_toDigits_ne h)
  places _ h := nomatch h

theorem chars_ofWhole (n : Int) : (ofWhole n).chars = (toString n).toList := by
  rw [toList_toString]
  by_cases hnegative : n < 0 <;>
    simp [chars, unsignedChars, ofWhole, placesChars, exponentChars, hnegative]

/-! ## Reals -/

/-- The numeral of a decimal that is not zero, with the point in its place. -/
def ofDecimal (negative : Bool) (decimal : Decimal) : Numeral :=
  let digits := toDigits decimal.digits
  let place := decimal.exponent + digits.length
  if realLayout.positional place then
    if place ≤ 0 then
      ⟨negative, ['0'], some (List.replicate (-place).toNat '0' ++ digits), none⟩
    else if digits.length ≤ place then
      ⟨negative, digits ++ List.replicate (place.toNat - digits.length) '0', some ['0'], none⟩
    else ⟨negative, digits.take place.toNat, some (digits.drop place.toNat), none⟩
  else
    ⟨negative, digits.take 1, if digits.length ≤ 1 then none else some (digits.drop 1),
      some (place - 1)⟩

/-- The numeral of a finite number. -/
def ofReal (x : Binary64) : Numeral :=
  if x.magnitude = 0 then ⟨x.isNegative, ['0'], some ['0'], none⟩
  else ofDecimal x.isNegative (Decimal.shortest realLayout.tie x)

theorem ofDecimal_wellFormed (negative : Bool) {decimal : Decimal} (h : decimal.digits ≠ 0) :
    (ofDecimal negative decimal).WellFormed := by
  have hrun := toDigits_isRun decimal.digits
  have hhead := head?_toDigits_ne h
  have hlength := List.length_pos_iff.mpr hrun.ne_nil
  unfold ofDecimal
  dsimp only
  generalize toDigits decimal.digits = digits at hrun hhead hlength ⊢
  generalize decimal.exponent + digits.length = place
  split
  · split
    · refine ⟨isRun_zero, fun _ => rfl, ?_⟩
      rintro _ ⟨⟩
      exact hrun.replicate_append _
    · split
      · refine ⟨hrun.append_replicate _, fun hzero => ?_, ?_⟩
        · rw [List.head?_append, Option.or_of_isSome (List.isSome_head?.mpr hrun.ne_nil)] at hzero
          exact absurd hzero hhead
        · rintro _ ⟨⟩
          exact isRun_zero
      · refine ⟨hrun.take (by omega), fun hzero => ?_, ?_⟩
        · rw [List.head?_take, if_neg (by omega)] at hzero
          exact absurd hzero hhead
        · rintro _ ⟨⟩
          exact hrun.drop (by omega)
  · refine ⟨hrun.take (by omega), fun hzero => ?_, ?_⟩
    · rw [List.head?_take, if_neg (by omega)] at hzero
      exact absurd hzero hhead
    · intro places hplaces
      dsimp only at hplaces
      split at hplaces
      · cases hplaces
      · cases hplaces
        exact hrun.drop (by omega)

theorem ofReal_wellFormed (x : Binary64) : (ofReal x).WellFormed := by
  unfold ofReal
  split
  · refine ⟨isRun_zero, fun _ => rfl, ?_⟩
    rintro _ ⟨⟩
    exact isRun_zero
  · rename_i hx
    exact ofDecimal_wellFormed x.isNegative (Decimal.digits_shortest_ne_zero hx)

/-- The sign in front of a text. -/
theorem toList_sign (negative : Bool) :
    (if negative then "-" else "").toList = if negative then ['-'] else [] := by
  cases negative <;> rfl

/-- A decimal is laid out as its numeral. -/
theorem chars_ofDecimal (negative : Bool) (decimal : Decimal) :
    (ofDecimal negative decimal).chars =
      (if negative then ['-'] else []) ++
        (let digits := toDigits decimal.digits
         let place := decimal.exponent + digits.length
         if realLayout.positional place then realLayout.writtenOut digits place
         else NumberLayout.withExponent digits place).toList := by
  unfold ofDecimal
  dsimp only
  generalize toDigits decimal.digits = digits
  generalize decimal.exponent + digits.length = place
  split
  · unfold NumberLayout.writtenOut NumberLayout.zeros
    split
    · simp [chars, unsignedChars, placesChars, exponentChars]
    · split
      · simp [chars, unsignedChars, placesChars, exponentChars, realLayout]
      · simp [chars, unsignedChars, placesChars, exponentChars]
  · unfold NumberLayout.withExponent
    dsimp only
    generalize place - 1 = exponent
    have hsign : (if exponent < 0 then "-" else "+").toList =
        [if exponent < 0 then '-' else '+'] := by
      split <;> rfl
    by_cases hshort : digits.length ≤ 1
    · simp [chars, unsignedChars, placesChars, exponentChars, hsign, hshort, toDigits]
    · simp [chars, unsignedChars, placesChars, exponentChars, hsign, hshort, toDigits]

/-- A finite number is written as its numeral. -/
theorem chars_ofReal {x : Binary64} (h : x.isFinite = true) : (ofReal x).chars = writeReal x := by
  have hbits : x.unsignedBits < Binary64.infinityBits := of_decide_eq_true h
  have hnan : x.isNaN = false := decide_eq_false (by omega)
  have hinfinite : x.isInfinite = false := decide_eq_false (by omega)
  unfold ofReal writeReal NumberLayout.write
  simp only [h, hnan, hinfinite, if_true, if_false, Bool.false_eq_true, String.toList_append,
    toList_sign]
  split
  · simp [chars, unsignedChars, placesChars, exponentChars, realLayout]
  · exact chars_ofDecimal x.isNegative (Decimal.shortest realLayout.tie x)

end Numeral

/-! ## What is read -/

/-- Digits that fit a significand are all taken. -/
theorem accumulate_of_le {digits : List Char} {significand : Nat}
    (h : significand * 10 ^ digits.length + ofDigits digits ≤ maxSignificand) :
    accumulate significand digits =
      (significand * 10 ^ digits.length + ofDigits digits, digits.length) := by
  rw [← foldl_digits] at h ⊢
  induction digits generalizing significand with
  | nil => rfl
  | cons c digits ih =>
      have hnext : ¬maxSignificand < 10 * significand + digitValue c := by
        rw [List.foldl_cons, foldl_digits] at h
        have := Nat.le_mul_of_pos_right (10 * significand + digitValue c)
          (Nat.pow_pos (by decide) : 0 < 10 ^ digits.length)
        omega
      rw [accumulate]
      simp only [hnext, if_false, ih h, List.foldl_cons, List.length_cons]

/-- Of digits that do not fit a significand some are left. -/
theorem accumulate_snd_lt {digits : List Char} {significand : Nat}
    (hstart : significand ≤ maxSignificand)
    (h : maxSignificand < significand * 10 ^ digits.length + ofDigits digits) :
    (accumulate significand digits).2 < digits.length := by
  rw [← foldl_digits] at h
  induction digits generalizing significand with
  | nil => exact absurd hstart (by simpa using h)
  | cons c digits ih =>
      rw [accumulate]
      dsimp only
      split
      · exact Nat.succ_pos _
      · rename_i hnext
        exact Nat.succ_lt_succ (ih (by omega) h)

/-- A number that is no whole number, or beyond all numbers. -/
def IsInexact : Json → Prop
  | .real _ => True
  | .unreadable => True
  | _ => False

namespace Numeral

/-- A whole number within 64 bits is read back. -/
theorem value_ofWhole {n : Int} (lower : -wordLimit ≤ n) (upper : n < 2 * wordLimit) :
    (ofWhole n).value = .whole n := by
  have hfits : 0 * 10 ^ (toDigits n.natAbs).length + ofDigits (toDigits n.natAbs) ≤
      maxSignificand := by
    rw [ofDigits_toDigits]
    unfold wordLimit at lower upper
    unfold maxSignificand
    omega
  have htaken := accumulate_of_le hfits
  rw [ofDigits_toDigits, Nat.zero_mul, Nat.zero_add] at htaken
  unfold value ofWhole
  simp only [htaken, Int.sub_self, ne_eq, not_true_eq_false, if_false]
  by_cases hnegative : n < 0
  · have habs : (n.natAbs : Int) = -n := by omega
    have hword : 1 ≤ n.natAbs ∧ (n.natAbs : Int) ≤ wordLimit := by omega
    simp only [hnegative, decide_true, Bool.not_true, Bool.false_eq_true, if_false]
    rw [if_pos hword, habs, Int.neg_neg]
  · have habs : (n.natAbs : Int) = n := by omega
    simp only [hnegative, decide_false, Bool.not_false, if_true, habs]

/-- A whole number beyond 64 bits is read as a real, if at all. -/
theorem value_ofWhole_isInexact {n : Int} (h : ¬(-wordLimit ≤ n ∧ n < 2 * wordLimit)) :
    IsInexact (ofWhole n).value := by
  unfold value ofWhole
  dsimp only
  by_cases hfits : n.natAbs ≤ maxSignificand
  · have htaken : accumulate 0 (toDigits n.natAbs) = _ := accumulate_of_le (by
      rw [ofDigits_toDigits]
      omega)
    have hnegative : n < 0 := by
      unfold wordLimit at h
      unfold maxSignificand at hfits
      omega
    have hword : ¬(1 ≤ n.natAbs ∧ (n.natAbs : Int) ≤ wordLimit) := by omega
    simp only [htaken, ofDigits_toDigits, Nat.zero_mul, Nat.zero_add, Int.sub_self, ne_eq,
      not_true_eq_false, if_false, hnegative, decide_true, Bool.not_true, Bool.false_eq_true,
      hword]
    trivial
  · have hleft : (accumulate 0 (toDigits n.natAbs)).2 < (toDigits n.natAbs).length :=
      accumulate_snd_lt (Nat.zero_le _) (by
        rw [ofDigits_toDigits]
        omega)
    rw [if_pos (by omega)]
    split <;> trivial

/-- Reals have a point or an exponent. -/
theorem places_or_exponent_ofReal (x : Binary64) :
    (ofReal x).places ≠ none ∨ (ofReal x).exponent ≠ none := by
  unfold ofReal ofDecimal
  dsimp only
  split
  · simp
  · repeat' split
    all_goals simp

/-- A real is read as a real, if at all. -/
theorem value_ofReal_isInexact (x : Binary64) : IsInexact (ofReal x).value := by
  have hpoint := places_or_exponent_ofReal x
  unfold value
  dsimp only
  split
  · split <;> trivial
  · split <;> trivial
  · simp_all

end Numeral

/-- What is read from the text of a real. -/
def rereadReal (x : Binary64) : Json :=
  if x.isFinite then (Numeral.ofReal x).value else .null

end FilterQuery.Json
