import FilterQuery.Proofs.Json.Cutting

/-!
# Cutting text in front of other text

A text that is cut into tokens is cut into the same tokens in front of any text that does not go on
with a character of a number: nothing behind a token bears on where it ends.
-/

namespace FilterQuery.Json

open FilterQuery.Number

/-! ## Numbers -/

theorem takeWhile_append_of_endsRun (source : List Char) {rest : List Char} (ends : EndsRun rest) :
    (source ++ rest).takeWhile Char.isDigit = source.takeWhile Char.isDigit ∧
      (source ++ rest).dropWhile Char.isDigit = source.dropWhile Char.isDigit ++ rest := by
  induction source with
  | nil =>
      cases rest with
      | nil => exact ⟨rfl, rfl⟩
      | cons c rest => simp [ends c rfl]
  | cons c source ih =>
      cases digit : c.isDigit <;> simp [digit, ih]

theorem readWholeDigits_extend {source rest digits other : List Char} (ends : EndsRun rest)
    (read : readWholeDigits source = some (digits, other)) :
    readWholeDigits (source ++ rest) = some (digits, other ++ rest) := by
  obtain ⟨taken_eq, dropped_eq⟩ := takeWhile_append_of_endsRun source ends
  unfold readWholeDigits at read
  split at read
  · cases read
    rfl
  · rename_i plain
    dsimp only at read
    split at read
    · cases read
    · rename_i some
      cases read
      cases source with
      | nil => exact absurd rfl some
      | cons c source =>
          rw [List.cons_append] at taken_eq dropped_eq ⊢
          rw [readWholeDigits]
          · simp only [taken_eq, dropped_eq, if_neg some]
          · intro tail source_eq
            obtain ⟨rfl, -⟩ := List.cons.inj source_eq
            exact plain source rfl

theorem readPlaces_extend {source rest other : List Char} {places : Option (List Char)}
    (ends : EndsNumeral rest) (read : readPlaces source = some (places, other)) :
    readPlaces (source ++ rest) = some (places, other ++ rest) := by
  unfold readPlaces at read
  split at read
  · rename_i source
    obtain ⟨taken_eq, dropped_eq⟩ := takeWhile_append_of_endsRun source ends.endsRun
    dsimp only at read
    split at read
    · cases read
    · rename_i some
      cases read
      simp only [List.cons_append, readPlaces, taken_eq, dropped_eq, if_neg some]
  · rename_i plain
    cases read
    rw [readPlaces]
    rintro tail source_eq
    cases source with
    | nil => exact (ends '.' (by rw [show rest = _ from source_eq]; rfl)).2.1 rfl
    | cons c source =>
        obtain ⟨rfl, -⟩ := List.cons.inj source_eq
        exact plain source rfl

theorem readSign?_extend {source : List Char} (some : source ≠ []) (rest : List Char) :
    readSign? (source ++ rest) =
      (readSign? source).map fun (negative, other) => (negative, other ++ rest) := by
  obtain ⟨c, source, rfl⟩ := List.exists_cons_of_ne_nil some
  rw [List.cons_append]
  unfold readSign?
  split
  · rename_i heq
    obtain ⟨rfl, rfl⟩ := List.cons.inj heq
    rfl
  · rename_i heq
    obtain ⟨rfl, rfl⟩ := List.cons.inj heq
    rfl
  · rename_i noMinus noPlus
    split
    · rename_i heq
      obtain ⟨rfl, rfl⟩ := List.cons.inj heq
      exact absurd rfl (noMinus _)
    · rename_i heq
      obtain ⟨rfl, rfl⟩ := List.cons.inj heq
      exact absurd rfl (noPlus _)
    · rfl

theorem readExponent_extend {source rest other : List Char} {exponent : Option Int}
    (ends : EndsNumeral rest) (read : readExponent source = some (exponent, other)) :
    readExponent (source ++ rest) = some (exponent, other ++ rest) := by
  cases source with
  | nil =>
      cases read
      exact readExponent_append none ends
  | cons c source =>
      rw [readExponent] at read
      split at read
      · rename_i letter
        dsimp only at read
        split at read
        · cases read
        · rename_i some
          cases read
          have sign_eq : (readSign? (source ++ rest)).getD (false, source ++ rest) =
              (((readSign? source).getD (false, source)).1,
                ((readSign? source).getD (false, source)).2 ++ rest) := by
            have signed : source ≠ [] := by
              rintro rfl
              exact some rfl
            rw [readSign?_extend signed]
            cases readSign? source <;> rfl
          obtain ⟨taken_eq, dropped_eq⟩ := takeWhile_append_of_endsRun
            ((readSign? source).getD (false, source)).2 ends.endsRun
          rw [List.cons_append, readExponent, if_pos letter]
          simp only [sign_eq, taken_eq, dropped_eq, if_neg some]
      · rename_i plain
        cases read
        rw [List.cons_append, readExponent, if_neg plain]

/-- A number is read as it stands, whatever follows its last character. -/
theorem readNumeral_extend {negative : Bool} {source rest other : List Char} {numeral : Numeral}
    (ends : EndsNumeral rest) (read : readNumeral negative source = some (numeral, other)) :
    readNumeral negative (source ++ rest) = some (numeral, other ++ rest) := by
  simp only [readNumeral, Option.bind_eq_bind, Option.bind_eq_some_iff, Prod.exists] at read
  obtain ⟨digits, behindDigits, digits_eq, places, behindPlaces, places_eq, exponent, last,
    exponent_eq, result_eq⟩ := read
  cases result_eq
  simp only [readNumeral, readWholeDigits_extend ends.endsRun digits_eq,
    readPlaces_extend ends places_eq, readExponent_extend ends exponent_eq, Option.bind_eq_bind,
    Option.bind_some, Option.pure_def]

theorem isDigit_of_readNumeral {negative : Bool} {source other : List Char} {numeral : Numeral}
    (read : readNumeral negative source = some (numeral, other)) :
    ∃ c tail, source = c :: tail ∧ c.isDigit = true := by
  simp only [readNumeral, Option.bind_eq_bind, Option.bind_eq_some_iff, Prod.exists] at read
  obtain ⟨digits, behindDigits, digits_eq, -⟩ := read
  unfold readWholeDigits at digits_eq
  split at digits_eq
  · exact ⟨'0', _, rfl, rfl⟩
  · dsimp only at digits_eq
    split at digits_eq
    · cases digits_eq
    · rename_i some
      cases source with
      | nil => exact absurd rfl some
      | cons c tail =>
          refine ⟨c, tail, rfl, ?_⟩
          cases digit : c.isDigit with
          | true => rfl
          | false => exact absurd (List.takeWhile_cons_of_neg (by simp [digit])) some

/-! ## Strings -/

/-- A string is read as far as its closing quote. -/
theorem readString_extend {source other : List Char} {pieces : List Piece} (rest : List Char)
    (read : readString source = some (pieces, other)) :
    readString (source ++ rest) = some (pieces, other ++ rest) := by
  fun_induction readString source generalizing pieces other with
  | case1 => cases read
  | case2 source =>
      cases read
      rfl
  | case3 a b c d source unit unit_eq ih =>
      obtain ⟨⟨inner, behind⟩, inner_eq, ends⟩ := Option.map_eq_some_iff.mp read
      cases ends
      simp only [List.cons_append, readString, unit_eq, ih inner_eq, Option.map_some]
      rfl
  | case4 => cases read
  | case5 letter source plain c letter_eq ih =>
      obtain ⟨⟨inner, behind⟩, inner_eq, ends⟩ := Option.map_eq_some_iff.mp read
      cases ends
      have named : letter ≠ 'u' := by
        rintro rfl
        cases letter_eq
      rw [List.cons_append, List.cons_append, readString_oneLetter letter_eq named, ih inner_eq]
      rfl
  | case6 => cases read
  | case7 => cases read
  | case8 c source noQuote noEscape noCode plain ih =>
      obtain ⟨⟨inner, behind⟩, inner_eq, ends⟩ := Option.map_eq_some_iff.mp read
      cases ends
      rw [not_or] at plain
      rw [List.cons_append, readString_plain noQuote plain.1 plain.2, ih inner_eq]
      rfl

/-! ## Tokens -/

/-- A token is read as it stands, whatever follows it. -/
theorem readToken_extend {source rest other : List Char} {token : Token}
    (ends : EndsNumeral rest) (read : readToken source = some (token, other)) :
    readToken (source ++ rest) = some (token, other ++ rest) := by
  unfold readToken at read
  split at read
  case h_10 source =>
    obtain ⟨⟨pieces, behind⟩, string_eq, token_eq⟩ := Option.map_eq_some_iff.mp read
    cases token_eq
    rw [List.cons_append, readToken, readString_extend rest string_eq]
    rfl
  case h_11 source =>
    obtain ⟨⟨numeral, behind⟩, numeral_eq, token_eq⟩ := Option.map_eq_some_iff.mp read
    cases token_eq
    rw [List.cons_append, readToken, readNumeral_extend ends numeral_eq]
    rfl
  case h_12 =>
    obtain ⟨⟨numeral, behind⟩, numeral_eq, token_eq⟩ := Option.map_eq_some_iff.mp read
    cases token_eq
    obtain ⟨c, source, rfl, digit⟩ := isDigit_of_readNumeral numeral_eq
    have extended := readNumeral_extend ends numeral_eq
    rw [List.cons_append] at extended ⊢
    rw [readToken_of_isDigit digit, extended]
    rfl
  all_goals
    cases read
    rfl

theorem cuts_of_isSpace {c : Char} (space : isSpace c = true) (source : List Char) :
    Cuts (c :: source) [] source := by
  have cut := Cuts.refl source
  unfold Cuts at cut ⊢
  rw [tokens?, if_pos space]
  exact cut

/-- A text that is cut on its own is cut alike in front of another one. -/
theorem cuts_of_tokens?_eq_some {source rest : List Char} {tokens : List Token}
    (ends : EndsNumeral rest) (cut : tokens? source = some tokens) :
    Cuts (source ++ rest) tokens rest := by
  fun_induction tokens? source generalizing tokens with
  | case1 =>
      cases cut
      exact .refl rest
  | case2 c source space ih => exact (cuts_of_isSpace space (source ++ rest)).trans (ih cut)
  | case3 => cases cut
  | case4 c source plain token behind read shorter ih =>
      obtain ⟨others, others_eq, rfl⟩ := Option.map_eq_some_iff.mp cut
      refine .cons ?_ (readToken_extend ends read) (ih others_eq)
      rintro d ⟨⟩
      exact Bool.eq_false_iff.mpr plain

end FilterQuery.Json
