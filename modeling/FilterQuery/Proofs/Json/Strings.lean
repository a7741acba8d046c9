import FilterQuery.Json.Token
import FilterQuery.Json.Writer

/-!
# Strings in JSON text

Every character is read back from its escape, whatever stands behind it, so a
written string is read as one piece a character.  No surrogates are written: the
pieces of a written string always join.
-/

namespace FilterQuery.Json

/-! ## One character -/

/-- One-letter escapes are undone. -/
theorem unescape?_of_escapeLetter? {c letter : Char} (h : escapeLetter? c = some letter) :
    unescape? letter = some c ∧ letter ≠ 'u' := by
  unfold escapeLetter? at h
  split at h <;> cases h <;> exact ⟨rfl, by decide⟩

/-- A character without a one-letter escape is neither a quote nor a backslash. -/
theorem ne_of_escapeLetter?_eq_none {c : Char} (h : escapeLetter? c = none) :
    c ≠ '"' ∧ c ≠ '\\' := by
  constructor <;> rintro rfl <;> cases h

theorem hexDigit?_hexChar : ∀ n < 16, Number.hexDigit? (hexChar n) = some n := by
  decide

/-- Four hexadecimal digits hold every number below `2 ^ 8` in the last two. -/
theorem hex?_hexChar {n : Nat} (h : n < 0x100) :
    hex? '0' '0' (hexChar (n / 16)) (hexChar (n % 16)) = some n := by
  have hzero : Number.hexDigit? '0' = some 0 := hexDigit?_hexChar 0 (by decide)
  have high := hexDigit?_hexChar (n / 16) (by omega)
  have low := hexDigit?_hexChar (n % 16) (by omega)
  simp only [hex?, hzero, high, low, Option.bind_eq_bind, Option.bind_some, Option.pure_def,
    Option.some.injEq]
  omega

/-- A control character is no half of another one. -/
theorem ofUnit_toNat {c : Char} (h : c.toNat < 0x20) : Piece.ofUnit c.toNat = .char c := by
  rw [Piece.ofUnit, if_neg, Char.ofNat_toNat]
  simp only [isHighSurrogate, isLowSurrogate, Bool.or_eq_true, Bool.and_eq_true,
    decide_eq_true_eq]
  omega

theorem readString_oneLetter {letter c : Char} (hletter : unescape? letter = some c)
    (hu : letter ≠ 'u') (rest : List Char) :
    readString ('\\' :: letter :: rest) = (readString rest).map (consPiece (.char c)) := by
  rw [readString.eq_def]
  split
  case h_3 heq =>
    cases heq
    exact absurd rfl hu
  case h_4 heq =>
    cases heq
    rw [hletter]
  case h_5 hnotEscape heq =>
    cases heq
    exact absurd rfl (hnotEscape letter rest rfl)
  all_goals simp_all

theorem readString_plain {c : Char} (hquote : c ≠ '"') (hslash : c ≠ '\\')
    (hcontrol : ¬c.toNat < 0x20) (rest : List Char) :
    readString (c :: rest) = (readString rest).map (consPiece (.char c)) := by
  rw [readString.eq_def]
  split
  case h_5 heq =>
    cases heq
    rw [if_neg (by simp [hslash, hcontrol])]
  all_goals simp_all

/-- A character is read back from the text written for it. -/
theorem readString_escape (c : Char) (rest : List Char) :
    readString (escape c ++ rest) = (readString rest).map (consPiece (.char c)) := by
  unfold escape
  split
  · rename_i letter hletter
    obtain ⟨hread, hu⟩ := unescape?_of_escapeLetter? hletter
    exact readString_oneLetter hread hu rest
  · rename_i hplain
    obtain ⟨hquote, hslash⟩ := ne_of_escapeLetter?_eq_none hplain
    split
    · rename_i hcontrol
      have hunit := hex?_hexChar (n := c.toNat) (by omega)
      simp only [List.cons_append, List.nil_append, readString, hunit, ofUnit_toNat hcontrol]
    · rename_i hcontrol
      exact readString_plain hquote hslash hcontrol rest

/-! ## Whole strings -/

/-- The pieces of a text of characters. -/
theorem readString_flatMap_escape (text rest : List Char) :
    readString (text.flatMap escape ++ '"' :: rest) = some (text.map .char, rest) := by
  induction text with
  | nil => rfl
  | cons c text ih =>
      rw [List.flatMap_cons, List.append_assoc, readString_escape, ih]
      rfl

@[simp]
theorem joinPieces?_map_char (text : List Char) : joinPieces? (text.map .char) = some text := by
  induction text with
  | nil => rfl
  | cons c text ih => rw [List.map_cons, joinPieces?, ih, Option.map_some]

/-- A written string is read as the string that it was written for. -/
theorem readToken_writeString (s : String) (rest : List Char) :
    readToken (writeString s ++ rest) = some (.string (some s), rest) := by
  have hread := readString_flatMap_escape s.toList rest
  simp only [writeString, List.cons_append, List.append_assoc, List.nil_append, readToken, hread,
    Option.map_some, joinPieces?_map_char, String.ofList_toList]

end FilterQuery.Json
