import FilterQuery.Number.Whole
import Mathlib.Algebra.Group.Nat.Defs

/-!
# Runs of decimal digits

The digits of a number are read back as the number, and a run of digits is taken
off a text up to the first character that is no digit.  A whole number is written as
its digits behind a minus if it is negative, and is read back from that.
-/

namespace FilterQuery.Number

/-- At least one character, all of them digits. -/
structure IsRun (digits : List Char) : Prop where
  ne_nil : digits ≠ []
  isDigit : ∀ c ∈ digits, c.isDigit = true

/-- A text that does not go on with a digit. -/
def EndsRun (rest : List Char) : Prop :=
  ∀ c ∈ rest.head?, c.isDigit = false

/-! ## Taking a run off a text -/

theorem EndsRun.nil : EndsRun [] := by
  intro c hc
  cases hc

theorem EndsRun.cons {c : Char} (h : c.isDigit = false) (rest : List Char) :
    EndsRun (c :: rest) := by
  intro d hd
  cases hd
  exact h

theorem IsRun.takeWhile_append {digits rest : List Char} (hdigits : IsRun digits)
    (hrest : EndsRun rest) : (digits ++ rest).takeWhile Char.isDigit = digits := by
  rw [List.takeWhile_append_of_pos hdigits.isDigit]
  cases rest with
  | nil => simp
  | cons c rest => simp [hrest c rfl]

theorem IsRun.dropWhile_append {digits rest : List Char} (hdigits : IsRun digits)
    (hrest : EndsRun rest) : (digits ++ rest).dropWhile Char.isDigit = rest := by
  rw [List.dropWhile_append_of_pos hdigits.isDigit]
  cases rest with
  | nil => rfl
  | cons c rest => rw [List.dropWhile_cons_of_neg (by simp [hrest c rfl])]

theorem IsRun.take {digits : List Char} (h : IsRun digits) {n : Nat} (hn : 0 < n) :
    IsRun (digits.take n) where
  ne_nil := by
    rw [ne_eq, List.take_eq_nil_iff]
    rintro (hzero | hnil)
    · omega
    · exact h.ne_nil hnil
  isDigit c hc := h.isDigit c (List.mem_of_mem_take hc)

theorem IsRun.drop {digits : List Char} (h : IsRun digits) {n : Nat} (hn : n < digits.length) :
    IsRun (digits.drop n) where
  ne_nil := by
    rw [ne_eq, List.drop_eq_nil_iff]
    omega
  isDigit c hc := h.isDigit c (List.mem_of_mem_drop hc)

/-- Zeros in front of a run. -/
theorem IsRun.replicate_append {digits : List Char} (h : IsRun digits) (n : Nat) :
    IsRun (List.replicate n '0' ++ digits) where
  ne_nil := List.append_ne_nil_of_right_ne_nil _ h.ne_nil
  isDigit c hc := by
    rcases List.mem_append.mp hc with hzero | hdigit
    · rw [List.eq_of_mem_replicate hzero]
      rfl
    · exact h.isDigit c hdigit

/-- Zeros behind a run. -/
theorem IsRun.append_replicate {digits : List Char} (h : IsRun digits) (n : Nat) :
    IsRun (digits ++ List.replicate n '0') where
  ne_nil := List.append_ne_nil_of_left_ne_nil h.ne_nil _
  isDigit c hc := by
    rcases List.mem_append.mp hc with hdigit | hzero
    · exact h.isDigit c hdigit
    · rw [List.eq_of_mem_replicate hzero]
      rfl

theorem isRun_zero : IsRun ['0'] where
  ne_nil := List.cons_ne_nil '0' []
  isDigit c hc := by
    rw [List.mem_singleton.mp hc]
    rfl

/-! ## The digits of a number -/

theorem toDigits_isRun (n : Nat) : IsRun (toDigits n) where
  ne_nil := Nat.toDigits_ne_nil
  isDigit _ hc := Nat.isDigit_of_mem_toDigits (by decide) (by decide) hc

@[simp]
theorem ofDigits_toDigits (n : Nat) : ofDigits (toDigits n) = n := by
  unfold ofDigits digitValue toDigits
  rw [← Nat.ofDigitChars_eq_foldl, Nat.ofDigitChars_ten_toDigits]

/-- Reading digits behind a number that has been read. -/
theorem foldl_digits (n : Nat) (digits : List Char) :
    digits.foldl (fun n c => 10 * n + digitValue c) n = n * 10 ^ digits.length + ofDigits digits := by
  unfold ofDigits digitValue
  rw [← Nat.ofDigitChars_eq_foldl, ← Nat.ofDigitChars_eq_foldl,
    Nat.ofDigitChars_eq_ofDigitChars_zero, Nat.mul_comm]

theorem ofDigits_append (digits more : List Char) :
    ofDigits (digits ++ more) = ofDigits digits * 10 ^ more.length + ofDigits more := by
  rw [← foldl_digits]
  exact List.foldl_append

@[simp]
theorem ofDigits_replicate_zero (n : Nat) : ofDigits (List.replicate n '0') = 0 := by
  unfold ofDigits digitValue
  rw [← Nat.ofDigitChars_eq_foldl, Nat.ofDigitChars_replicate_zero, Nat.mul_zero]

/-- A number but zero does not start with a zero. -/
theorem head?_toDigits_ne {n : Nat} (h : n ≠ 0) : (toDigits n).head? ≠ some '0' := by
  induction n using Nat.strongRecOn with
  | ind n ih =>
    unfold toDigits at ih ⊢
    rw [Nat.toDigits_eq_if (by decide)]
    split
    · rename_i hsmall
      simp only [List.head?_cons, ne_eq, Option.some.injEq, Nat.digitChar_eq_zero]
      exact h
    · rename_i hlarge
      have hhead := ih (n / 10) (by omega) (by omega)
      obtain ⟨c, digits, hdigits⟩ := List.exists_cons_of_ne_nil
        (Nat.toDigits_ne_nil : Nat.toDigits 10 (n / 10) ≠ [])
      rw [hdigits] at hhead ⊢
      exact hhead

theorem length_toDigits_le_iff {n k : Nat} (hk : 0 < k) :
    (toDigits n).length ≤ k ↔ n < 10 ^ k :=
  Nat.length_toDigits_le_iff (by decide) hk

/-! ## Whole numbers -/

theorem toList_toString (n : Int) :
    (toString n).toList = (if n < 0 then ['-'] else []) ++ toDigits n.natAbs := by
  cases n with
  | ofNat n =>
      have hsign : ¬Int.ofNat n < 0 := Int.not_lt.mpr (Int.natCast_nonneg n)
      rw [if_neg hsign]
      exact String.toList_ofList
  | negSucc n =>
      rw [if_pos (Int.negSucc_lt_zero n)]
      simp only [toString, Int.repr, String.toList_append, Nat.toList_repr]
      rfl

theorem readNat?_toDigits (n : Nat) : readNat? (toDigits n) = some n := by
  have hrun := toDigits_isRun n
  rw [readNat?, if_pos ⟨hrun.ne_nil, List.all_eq_true.mpr hrun.isDigit⟩, ofDigits_toDigits]

/-- Digits do not start with a sign. -/
theorem readSign?_toDigits (n : Nat) : readSign? (toDigits n) = none := by
  have hdigit := (toDigits_isRun n).isDigit
  unfold readSign?
  split
  · rename_i heq
    exact absurd (hdigit '-' (heq ▸ List.mem_cons_self)) (by decide)
  · rename_i heq
    exact absurd (hdigit '+' (heq ▸ List.mem_cons_self)) (by decide)
  · rfl

/-- A whole number is read back from its text. -/
theorem readInt?_toString (n : Int) : readInt? (toString n).toList = some n := by
  rw [toList_toString]
  by_cases hnegative : n < 0
  · have hvalue : -(n.natAbs : Int) = n := by omega
    rw [if_pos hnegative, List.singleton_append, readInt?, readSign?]
    simp only [readNat?_toDigits]
    exact congrArg some hvalue
  · have hvalue : (n.natAbs : Int) = n := by omega
    rw [if_neg hnegative, List.nil_append, readInt?, readSign?_toDigits]
    simp only [readNat?_toDigits]
    exact congrArg some hvalue

/-- A word is read back from its text, the least and the greatest one included. -/
theorem readInt64?_toString (word : Int64) :
    readInt64? (toString word.toInt).toList = some word := by
  rw [readInt64?, readInt?_toString, Option.bind_some, int64?_toInt]

end FilterQuery.Number
