import FilterQuery.Proofs.Number.Comparison

/-!
# The order of values

A value has a rank among the values of its kind; words and numbers share one line of fractions
between two infinities.  Values are compared by their ranks, and they agree if they are taken for
the same rank, where a constant of an enumeration is taken for its name.  So the comparison is a
partial order and the agreement an equality, whatever kinds are mixed.
-/

namespace FilterQuery

namespace Number.Binary64

/-! ## Numbers -/

/-- How far the infinities are from zero. -/
def infinityMagnitude : Nat :=
  leadingBit * (2 ^ 972 * unitsPerOne)

theorem infinityMagnitude_pos : 0 < infinityMagnitude :=
  Nat.mul_pos (by decide) (Nat.mul_pos (by positivity) unitsPerOne_pos)

/-- What a number stands for, with the place of its units. -/
inductive StandsFor (x : Binary64) : WithBot (WithTop ℚ) → Prop
  | bottom (units_eq : x.units = -(infinityMagnitude : ℤ)) : StandsFor x ⊥
  | fraction (above : -(infinityMagnitude : ℤ) < x.units) (below : x.units < infinityMagnitude) :
      StandsFor x (ofFraction x.finiteValue)
  | top (units_eq : x.units = infinityMagnitude) : StandsFor x ⊤

variable {x y : Binary64} {v w : WithBot (WithTop ℚ)}

/-- The fractions stay within the infinities. -/
theorem magnitude_lt_infinityMagnitude (not_all_set : x.exponentField ≠ 2047) :
    x.magnitude < infinityMagnitude := by
  have level_le : x.level ≤ 971 + unitPlaces := by
    have field_le := x.exponentField_le
    unfold level unitPlaces
    omega
  calc x.magnitude
      = x.significand * 2 ^ x.level := magnitude_eq x
    _ < 2 * leadingBit * 2 ^ x.level :=
      Nat.mul_lt_mul_of_pos_right x.significand_lt (Nat.two_pow_pos _)
    _ ≤ 2 * leadingBit * 2 ^ (971 + unitPlaces) :=
      Nat.mul_le_mul_left _ (Nat.pow_le_pow_right Nat.two_pos level_le)
    _ = infinityMagnitude := by
      rw [infinityMagnitude, unitsPerOne_eq, ← Nat.pow_add, Nat.mul_comm 2, Nat.mul_assoc,
        ← Nat.pow_succ', Nat.succ_eq_add_one, Nat.add_right_comm]

theorem standsFor_of_value?_eq_some (stands : x.value? = some v) : x.StandsFor v := by
  unfold value? at stands
  split at stands
  · rename_i all_set
    split at stands
    · rename_i rest
      have distance : x.magnitude = infinityMagnitude := magnitude_of_infinite all_set rest
      cases stands
      split
      · rename_i negative
        exact .bottom (by rw [units, if_pos negative, distance])
      · rename_i positive
        exact .top (by rw [units, if_neg positive, distance])
    · cases stands
  · rename_i not_all_set
    have distance_lt := magnitude_lt_infinityMagnitude not_all_set
    rw [← natAbs_units] at distance_lt
    cases stands
    exact .fraction (by omega) (by omega)

theorem compare_units_fraction (x y : Binary64) :
    Ord.compare x.units y.units =
      Ord.compare (ofFraction x.finiteValue) (ofFraction y.finiteValue) := by
  have pos : (0 : ℚ) < unitsPerOne := Nat.cast_pos.mpr unitsPerOne_pos
  rw [← cmp_eq_compare, ← cmp_eq_compare]
  calc cmp x.units y.units
      = cmp (x.units : ℚ) y.units := (Int.cast_strictMono.cmp_map_eq _ _).symm
    _ = cmp (x.finiteValue * unitsPerOne) (y.finiteValue * unitsPerOne) := by
        rw [units_eq, units_eq]
    _ = cmp x.finiteValue y.finiteValue := (strictMono_mul_right_of_pos pos).cmp_map_eq _ _
    _ = cmp (ofFraction x.finiteValue) (ofFraction y.finiteValue) :=
        (ofFraction_strictMono.cmp_map_eq _ _).symm

/-- Units are ordered as what they stand for. -/
theorem StandsFor.compare_units (hx : x.StandsFor v) (hy : y.StandsFor w) :
    Ord.compare x.units y.units = Ord.compare v w := by
  have infinity_pos := infinityMagnitude_pos
  cases hx with
  | bottom x_eq =>
      cases hy with
      | bottom y_eq => rw [x_eq, y_eq, compare_eq_iff_eq.mpr rfl, compare_eq_iff_eq.mpr rfl]
      | fraction above _ =>
          rw [compare_lt_iff_lt.mpr (x_eq ▸ above), compare_lt_iff_lt.mpr (bot_lt_ofFraction _)]
      | top y_eq =>
          rw [compare_lt_iff_lt.mpr (by omega), compare_lt_iff_lt.mpr bot_lt_top]
  | fraction above below =>
      cases hy with
      | bottom y_eq =>
          rw [compare_gt_iff_gt.mpr (y_eq ▸ above), compare_gt_iff_gt.mpr (bot_lt_ofFraction _)]
      | fraction _ _ => exact compare_units_fraction x y
      | top y_eq =>
          rw [compare_lt_iff_lt.mpr (y_eq ▸ below), compare_lt_iff_lt.mpr (ofFraction_lt_top _)]
  | top x_eq =>
      cases hy with
      | bottom y_eq =>
          rw [compare_gt_iff_gt.mpr (by omega), compare_gt_iff_gt.mpr bot_lt_top]
      | fraction _ below =>
          rw [compare_gt_iff_gt.mpr (x_eq ▸ below), compare_gt_iff_gt.mpr (ofFraction_lt_top _)]
      | top y_eq => rw [x_eq, y_eq, compare_eq_iff_eq.mpr rfl, compare_eq_iff_eq.mpr rfl]

/-- Numbers are compared by what they stand for. -/
theorem compare_eq (x y : Binary64) :
    x.compare y = x.value?.bind fun v => y.value?.map (Ord.compare v) := by
  have isNaN_iff (z : Binary64) : z.isNaN = z.value?.isNone := by
    rw [Bool.eq_iff_iff, ← value?_eq_none_iff, Option.isNone_iff_eq_none]
  unfold Binary64.compare
  rw [isNaN_iff, isNaN_iff]
  cases hx : x.value? with
  | none => rfl
  | some v =>
      cases hy : y.value? with
      | none => rfl
      | some w =>
          exact congrArg some ((standsFor_of_value?_eq_some hx).compare_units
            (standsFor_of_value?_eq_some hy))

/-- So are words and numbers, whichever of them comes first. -/
theorem compareInt_eq_compare (n : Int64) (x : Binary64) :
    compareInt n x = x.value?.map (Ord.compare (valueOfWord n)) := by
  rw [compareInt_eq_map_cmp]
  exact congrArg (x.value?.map ·) (funext (cmp_eq_compare (valueOfWord n)))

/-- And words among themselves. -/
theorem compare_words (n k : Int64) :
    Ord.compare n k = Ord.compare (valueOfWord n) (valueOfWord k) := by
  rw [compare_toInt, ← cmp_eq_compare, ← cmp_eq_compare]
  exact ((ofFraction_strictMono.comp Int.cast_strictMono).cmp_map_eq n.toInt k.toInt).symm

end Number.Binary64

namespace Value

open Number (Binary64)

/-! ## Ranks -/

/-- Where a value stands among the values of its kind. -/
inductive Rank
  | truth (b : Bool)
  | number (v : WithBot (WithTop ℚ))
  | text (s : String)
  | place (ordinal : UInt32)
  | instant (nanos : Int)

namespace Rank

/-- The order of two ranks; there is none between kinds. -/
def compare : Rank → Rank → Option Ordering
  | .truth a, .truth b => some (Ord.compare a b)
  | .number v, .number w => some (Ord.compare v w)
  | .text s, .text t => some (Ord.compare s t)
  | .place a, .place b => some (Ord.compare a b)
  | .instant a, .instant b => some (Ord.compare a b)
  | _, _ => none

/-- The order of the ends of a chain of three. -/
theorem compare_of_chain {α : Type*} [Ord α] [Std.TransOrd α] {a b c : α}
    (first : (Ord.compare a b).isLE = true) (second : (Ord.compare b c).isLE = true) :
    Ord.compare a c =
      if Ord.compare a b = .lt ∨ Ord.compare b c = .lt then .lt else .eq := by
  cases first_eq : Ord.compare a b with
  | lt => exact Std.TransCmp.lt_of_lt_of_isLE first_eq second
  | eq =>
      rw [Std.TransCmp.congr_left first_eq]
      cases second_eq : Ord.compare b c with
      | lt => rfl
      | eq => rfl
      | gt => rw [second_eq] at second; cases second
  | gt => rw [first_eq] at first; cases first

variable {p q r : Rank} {first second : Ordering}

theorem compare_swap (p q : Rank) : q.compare p = (p.compare q).map Ordering.swap := by
  cases p <;> cases q <;> first
    | rfl
    | exact congrArg some Std.OrientedCmp.eq_swap

theorem compare_trans (hpq : p.compare q = some first) (hqr : q.compare r = some second)
    (first_le : first.isLE = true) (second_le : second.isLE = true) :
    p.compare r = some (if first = .lt ∨ second = .lt then .lt else .eq) := by
  cases p <;> cases q <;> cases hpq <;> cases r <;> cases hqr <;>
    exact congrArg some (compare_of_chain first_le second_le)

theorem compare_eq_iff : p.compare q = some .eq ↔ p = q := by
  cases p <;> cases q <;> simp [compare]

end Rank

/-- The rank of a value.  Null and what is not a number have none. -/
def rank? : Value → Option Rank
  | .null => none
  | .bool b => some (.truth b)
  | .int n => some (.number (Binary64.valueOfWord n))
  | .float x => x.value?.map .number
  | .text s => some (.text s)
  | .enum ordinal _ => some (.place ordinal)
  | .instant nanos => some (.instant nanos)

/-- The rank that a value is taken for where values are equated. -/
def identity? : Value → Option Rank
  | .enum _ name => some (.text name)
  | value => value.rank?

/-- Values are compared by their ranks. -/
theorem compare_eq (a b : Value) :
    a.compare b = a.rank?.bind fun p => b.rank?.bind p.compare := by
  have swapped (v w : WithBot (WithTop ℚ)) : (Ord.compare v w).swap = Ord.compare w v :=
    Std.OrientedCmp.eq_swap.symm
  cases a <;> cases b <;>
    simp only [Value.compare, rank?, Rank.compare, Binary64.compare_words,
      Binary64.compareInt_eq_compare, Binary64.compare_eq, swapped, Option.map_eq_bind,
      Option.bind_assoc, Option.bind_some, Option.bind_none, Option.bind_fun_none,
      Function.comp_def]

theorem compare_eq_some_eq_iff {a b : Value} :
    a.compare b = some .eq ↔ ∃ p, a.rank? = some p ∧ b.rank? = some p := by
  simp only [compare_eq, Option.bind_eq_some_iff, Rank.compare_eq_iff]
  constructor
  · rintro ⟨p, hp, _, hq, rfl⟩
    exact ⟨p, hp, hq⟩
  · rintro ⟨p, hp, hq⟩
    exact ⟨p, hp, p, hq, rfl⟩

/-- Values agree if they are taken for the same rank. -/
theorem agrees_iff {a b : Value} :
    a.agrees b = true ↔ ∃ p, a.identity? = some p ∧ b.identity? = some p := by
  cases a <;> cases b <;> simp [agrees, identity?, compare_eq_some_eq_iff, rank?] <;>
    exact eq_comm

/-- Beside constants agreement is the equality of the order. -/
theorem agrees_iff_compare {a b : Value} (ha : ∀ ordinal name, a ≠ .enum ordinal name)
    (hb : ∀ ordinal name, b ≠ .enum ordinal name) :
    a.agrees b = true ↔ a.compare b = some .eq := by
  unfold agrees
  split
  · exact absurd rfl (ha _ _)
  · exact absurd rfl (ha _ _)
  · exact absurd rfl (hb _ _)
  · exact decide_eq_true_iff

/-- All but null and what is not a number agree with themselves. -/
theorem agrees_self_iff {a : Value} :
    a.agrees a = true ↔ a ≠ .null ∧ ∀ x, a = .float x → x.isNaN = false := by
  have taken : a.agrees a = true ↔ a.identity? ≠ none := by
    rw [agrees_iff, Option.ne_none_iff_exists']
    exact exists_congr fun p => and_self_iff
  rw [taken]
  cases a <;> simp [identity?, rank?, Binary64.value?_eq_none_iff]

/-- Values are partially ordered, and agreement is an equality among all but null and what is not a
number.  The order of a chain follows from the orders of its links, also where words and numbers
alternate; so does the agreement of its ends, also where constants and texts alternate.  Beside
constants the two are one. -/
theorem compare_order_agrees_equality (a b c : Value) :
    b.compare a = (a.compare b).map Ordering.swap ∧
      (∀ first second, a.compare b = some first → b.compare c = some second →
        first.isLE = true → second.isLE = true →
        a.compare c = some (if first = .lt ∨ second = .lt then .lt else .eq)) ∧
      (a.agrees b = true → b.agrees a = true) ∧
      (a.agrees b = true → b.agrees c = true → a.agrees c = true) ∧
      (a.agrees a = true ↔ a ≠ .null ∧ ∀ x, a = .float x → x.isNaN = false) ∧
      ((∀ ordinal name, a ≠ .enum ordinal name) → (∀ ordinal name, b ≠ .enum ordinal name) →
        (a.agrees b = true ↔ a.compare b = some .eq)) := by
  refine ⟨?swap, ?chain, ?symm, ?trans, agrees_self_iff, agrees_iff_compare⟩
  case swap =>
    simp only [compare_eq]
    cases a.rank? with
    | none => cases b.rank? <;> rfl
    | some p =>
        cases b.rank? with
        | none => rfl
        | some q => exact Rank.compare_swap p q
  case chain =>
    intro first second hab hbc first_le second_le
    simp only [compare_eq, Option.bind_eq_some_iff] at hab hbc
    obtain ⟨p, hp, q, hq, hpq⟩ := hab
    obtain ⟨_, hq', r, hr, hqr⟩ := hbc
    cases hq.symm.trans hq'
    rw [compare_eq, hp, hr]
    exact Rank.compare_trans hpq hqr first_le second_le
  case symm =>
    simp only [agrees_iff]
    rintro ⟨p, ha, hb⟩
    exact ⟨p, hb, ha⟩
  case trans =>
    simp only [agrees_iff]
    rintro ⟨p, ha, hb⟩ ⟨q, hb', hc⟩
    cases hb.symm.trans hb'
    exact ⟨p, ha, hc⟩

/-- Two words with a number between them that a word is rounded to, and two constants with a text
between them. -/
theorem compare_order_agrees_equality_mixed :
    let x : Binary64 := ⟨0x4340000000000000⟩
    (Value.int 9007199254740992).compare (.float x) = some .eq ∧
      (Value.float x).compare (.int 9007199254740993) = some .lt ∧
      (Value.int 9007199254740992).compare (.int 9007199254740993) = some .lt ∧
      (Value.enum 0 "A").agrees (.text "A") = true ∧ (Value.text "A").agrees (.enum 1 "A") = true ∧
      (Value.enum 0 "A").agrees (.enum 1 "A") = true ∧
      ((Value.int 9007199254740992).agrees (.float x) = true ↔
        (Value.int 9007199254740992).compare (.float x) = some .eq) := by
  intro x
  have first : (Value.int 9007199254740992).compare (.float x) = some .eq := by decide +kernel
  have second : (Value.float x).compare (.int 9007199254740993) = some .lt := by decide +kernel
  have constant_text : (Value.enum 0 "A").agrees (.text "A") = true := by decide
  have text_constant : (Value.text "A").agrees (.enum 1 "A") = true := by decide
  obtain ⟨-, chain, -, -, -, beside_constants⟩ :=
    compare_order_agrees_equality (.int 9007199254740992) (.float x) (.int 9007199254740993)
  obtain ⟨-, -, -, trans, -⟩ :=
    compare_order_agrees_equality (.enum 0 "A") (.text "A") (.enum 1 "A")
  exact ⟨first, second, chain _ _ first second (by decide) (by decide), constant_text,
    text_constant, trans constant_text text_constant, beside_constants nofun nofun⟩

end Value

end FilterQuery
