import FilterQuery.Json.Token
import FilterQuery.Proofs.Number.Digits

/-!
# Numbers in JSON text

A number is read whole: behind its last digit stands no digit, no point and no
exponent letter, so each part of a written numeral is taken off exactly.  A whole
number within 64 bits, signed or unsigned, is read back as itself; any other is
read as a real or not at all.
-/

namespace FilterQuery.Json

open FilterQuery.Number

/-! ## The text of a numeral -/

/-- A point and the decimal places behind it. -/
def placesChars : Option (List Char) → List Char
  | none => []
  | some places => '.' :: places

/-- An exponent with its letter and its sign. -/
def exponentChars : Option Int → List Char
  | none => []
  | some exponent => 'e' :: (if exponent < 0 then '-' else '+') :: toDigits exponent.natAbs

namespace Numeral

/-- The text of a numeral behind its sign. -/
def unsignedChars (numeral : Numeral) : List Char :=
  numeral.wholeDigits ++ (placesChars numeral.places ++ exponentChars numeral.exponent)

/-- The text of a numeral. -/
def chars (numeral : Numeral) : List Char :=
  (if numeral.negative then ['-'] else []) ++ numeral.unsignedChars

/-- The parts of a numeral are runs of digits, and its whole digits start with a zero
only if that is all of them. -/
structure WellFormed (numeral : Numeral) : Prop where
  whole : IsRun numeral.wholeDigits
  leading : numeral.wholeDigits.head? = some '0' → numeral.wholeDigits = ['0']
  places : ∀ places ∈ numeral.places, IsRun places

end Numeral

/-- A text that does not go on with a character of a number. -/
def EndsNumeral (rest : List Char) : Prop :=
  ∀ c ∈ rest.head?, c.isDigit = false ∧ c ≠ '.' ∧ c ≠ 'e' ∧ c ≠ 'E'

theorem EndsNumeral.nil : EndsNumeral [] := by
  intro c hc
  cases hc

theorem EndsNumeral.cons {c : Char} (h : c.isDigit = false ∧ c ≠ '.' ∧ c ≠ 'e' ∧ c ≠ 'E')
    (rest : List Char) : EndsNumeral (c :: rest) := by
  intro d hd
  cases hd
  exact h

theorem EndsNumeral.endsRun {rest : List Char} (h : EndsNumeral rest) : EndsRun rest :=
  fun c hc => (h c hc).1

theorem endsRun_exponentChars (exponent : Option Int) {rest : List Char}
    (hrest : EndsNumeral rest) : EndsRun (exponentChars exponent ++ rest) := by
  cases exponent with
  | none => exact hrest.endsRun
  | some exponent => exact .cons rfl _

theorem endsRun_placesChars (places : Option (List Char)) (exponent : Option Int)
    {rest : List Char} (hrest : EndsNumeral rest) :
    EndsRun (placesChars places ++ (exponentChars exponent ++ rest)) := by
  cases places with
  | none => exact endsRun_exponentChars exponent hrest
  | some places => exact .cons rfl _

/-! ## Reading the parts -/

theorem readWholeDigits_append {digits rest : List Char} (hrun : IsRun digits)
    (hleading : digits.head? = some '0' → digits = ['0']) (hrest : EndsRun rest) :
    readWholeDigits (digits ++ rest) = some (digits, rest) := by
  by_cases hzero : digits.head? = some '0'
  · rw [hleading hzero]
    rfl
  · have hhead : (digits ++ rest).head? = digits.head? := by
      rw [List.head?_append, Option.or_of_isSome (List.isSome_head?.mpr hrun.ne_nil)]
    unfold readWholeDigits
    split
    · rename_i heq
      rw [heq] at hhead
      exact absurd hhead.symm hzero
    · simp only [hrun.takeWhile_append hrest, hrun.dropWhile_append hrest, hrun.ne_nil, if_false]

theorem readPlaces_append (places : Option (List Char)) (exponent : Option Int)
    {rest : List Char} (hplaces : ∀ run ∈ places, IsRun run) (hrest : EndsNumeral rest) :
    readPlaces (placesChars places ++ (exponentChars exponent ++ rest)) =
      some (places, exponentChars exponent ++ rest) := by
  have hend := endsRun_exponentChars exponent hrest
  cases places with
  | some run =>
      have hrun := hplaces run rfl
      simp only [placesChars, List.cons_append, readPlaces, hrun.takeWhile_append hend,
        hrun.dropWhile_append hend, hrun.ne_nil, if_false]
  | none =>
      unfold readPlaces
      split
      · rename_i tail heq
        cases exponent with
        | some exponent => cases heq
        | none =>
            have hpoint : rest = '.' :: tail := heq
            exact absurd rfl (hrest '.' (by rw [hpoint]; rfl)).2.1
      · rfl

theorem readExponent_append (exponent : Option Int) {rest : List Char}
    (hrest : EndsNumeral rest) :
    readExponent (exponentChars exponent ++ rest) = some (exponent, rest) := by
  cases exponent with
  | none =>
      cases rest with
      | nil => rfl
      | cons c rest =>
          obtain ⟨-, -, he, hE⟩ := hrest c rfl
          simp only [exponentChars, List.nil_append, readExponent, he, hE, or_self, if_false]
  | some exponent =>
      have hrun := toDigits_isRun exponent.natAbs
      have hend := hrest.endsRun
      simp only [exponentChars, List.cons_append, readExponent, true_or, if_true]
      by_cases hnegative : exponent < 0
      · simp only [hnegative, if_true, readSign?, Option.getD_some, hrun.takeWhile_append hend,
          hrun.dropWhile_append hend, hrun.ne_nil, if_false, ofDigits_toDigits]
        congr
        omega
      · simp only [hnegative, if_false, readSign?, Option.getD_some, hrun.takeWhile_append hend,
          hrun.dropWhile_append hend, hrun.ne_nil, ofDigits_toDigits, Bool.false_eq_true]
        congr
        omega

/-- A numeral is read back from its text. -/
theorem readNumeral_unsignedChars {numeral : Numeral} (h : numeral.WellFormed)
    {rest : List Char} (hrest : EndsNumeral rest) :
    readNumeral numeral.negative (numeral.unsignedChars ++ rest) = some (numeral, rest) := by
  have hwhole := readWholeDigits_append h.whole h.leading
    (endsRun_placesChars numeral.places numeral.exponent hrest)
  have hplaces := readPlaces_append numeral.places numeral.exponent h.places hrest
  have hexponent := readExponent_append numeral.exponent hrest
  simp only [readNumeral, Numeral.unsignedChars, List.append_assoc, hwhole, hplaces, hexponent,
    Option.bind_eq_bind, Option.bind_some, Option.pure_def]

/-- A text that starts with a digit starts with a number. -/
theorem readToken_of_isDigit {c : Char} (hc : c.isDigit = true) (rest : List Char) :
    readToken (c :: rest) =
      (readNumeral false (c :: rest)).map fun (numeral, rest) => (.scalar numeral.value, rest) := by
  have hcases : ∀ d, d.isDigit = false → c ≠ d := by
    rintro d hd rfl
    rw [hd] at hc
    cases hc
  rw [readToken.eq_def]
  split
  case h_12 => rfl
  all_goals
    rename_i heq
    injection heq with hhead
    exact absurd hhead (hcases _ rfl)

/-- The first character of a numeral is a digit or a minus. -/
theorem readToken_chars {numeral : Numeral} (h : numeral.WellFormed) {rest : List Char}
    (hrest : EndsNumeral rest) :
    readToken (numeral.chars ++ rest) = some (.scalar numeral.value, rest) := by
  have hread := readNumeral_unsignedChars h hrest
  unfold Numeral.chars
  cases hnegative : numeral.negative with
  | true =>
      rw [hnegative] at hread
      simp only [if_true, List.cons_append, List.nil_append, readToken, hread, Option.map_some]
  | false =>
      rw [hnegative] at hread
      obtain ⟨c, digits, hdigits⟩ := List.exists_cons_of_ne_nil h.whole.ne_nil
      have hc : c.isDigit = true := h.whole.isDigit c (by rw [hdigits]; exact List.mem_cons_self)
      have hcons : numeral.unsignedChars ++ rest = c :: (digits ++
          (placesChars numeral.places ++ exponentChars numeral.exponent) ++ rest) := by
        rw [Numeral.unsignedChars, hdigits]
        rfl
      rw [hcons] at hread
      simp only [Bool.false_eq_true, if_false, List.nil_append, hcons, readToken_of_isDigit hc,
        hread, Option.map_some]

end FilterQuery.Json
