import FilterQuery.Proofs.Json.Strings
import FilterQuery.Proofs.Json.WrittenNumbers

/-!
# Cutting written text

The text of a value is cut into the tokens of the value.  What follows must not go
on with a character of a number; in written text it is a comma, a closing mark or the
end.
-/

namespace FilterQuery.Json

/-! ## Tokens of a value -/

mutual
/-- The tokens of a value. -/
def tokens : Json → List Token
  | .null => [.scalar .null]
  | .bool b => [.scalar (.bool b)]
  | .whole n => [.scalar (Numeral.ofWhole n).value]
  | .real x => [.scalar (rereadReal x)]
  | .text s => [.string (some s)]
  | .array items => .openBracket :: (itemTokens items ++ [.closeBracket])
  | .object members => .openBrace :: (memberTokens members ++ [.closeBrace])
  | .unreadable => [.scalar .null]

/-- The tokens of the items of an array. -/
def itemTokens : List Json → List Token
  | [] => []
  | [item] => item.tokens
  | item :: items => item.tokens ++ .comma :: itemTokens items

/-- The tokens of the members of an object. -/
def memberTokens : List (String × Json) → List Token
  | [] => []
  | [(name, value)] => .string (some name) :: .colon :: value.tokens
  | (name, value) :: members =>
      .string (some name) :: .colon :: (value.tokens ++ .comma :: memberTokens members)
end

/-! ## Cutting -/

/-- A text starts with the given tokens, and the rest stands behind them. -/
def Cuts (source : List Char) (tokens : List Token) (rest : List Char) : Prop :=
  tokens? source = (tokens? rest).map (tokens ++ ·)

theorem Cuts.refl (source : List Char) : Cuts source [] source := by
  cases h : tokens? source with
  | none => rw [Cuts, h, Option.map_none]
  | some tokens => rw [Cuts, h, Option.map_some, List.nil_append]

theorem Cuts.trans {source middle rest : List Char} {first second : List Token}
    (hfirst : Cuts source first middle) (hsecond : Cuts middle second rest) :
    Cuts source (first ++ second) rest := by
  unfold Cuts at hfirst hsecond ⊢
  rw [hfirst, hsecond, Option.map_map]
  congr 1
  funext tokens
  exact (List.append_assoc first second tokens).symm

/-- One token off the front of a text. -/
theorem cuts_of_readToken {source rest : List Char} {token : Token}
    (hspace : ∀ c ∈ source.head?, isSpace c = false)
    (h : readToken source = some (token, rest)) : Cuts source [token] rest := by
  cases source with
  | nil => cases h
  | cons c source =>
      unfold Cuts
      rw [tokens?, hspace c rfl, if_neg Bool.false_ne_true]
      split
      · rename_i hnone
        rw [h] at hnone
        cases hnone
      · rename_i heq
        rw [h] at heq
        cases heq
        rfl

/-- One token in front of a text that is cut. -/
theorem Cuts.cons {source middle rest : List Char} {token : Token} {tokens : List Token}
    (hspace : ∀ c ∈ source.head?, isSpace c = false)
    (htoken : readToken source = some (token, middle)) (h : Cuts middle tokens rest) :
    Cuts source (token :: tokens) rest :=
  (cuts_of_readToken hspace htoken).trans h

theorem isSpace_of_isDigit {c : Char} (h : c.isDigit = true) : isSpace c = false := by
  unfold isSpace
  simp only [Bool.or_eq_false_iff, decide_eq_false_iff_not]
  refine ⟨⟨⟨?_, ?_⟩, ?_⟩, ?_⟩ <;> rintro rfl <;> cases h

theorem cuts_string (s : String) (rest : List Char) :
    Cuts (writeString s ++ rest) [.string (some s)] rest := by
  refine cuts_of_readToken ?_ (readToken_writeString s rest)
  rintro c ⟨⟩
  rfl

theorem cuts_numeral {numeral : Numeral} (h : numeral.WellFormed) {rest : List Char}
    (hrest : EndsNumeral rest) :
    Cuts (numeral.chars ++ rest) [.scalar numeral.value] rest := by
  refine cuts_of_readToken ?_ (readToken_chars h hrest)
  intro c hc
  unfold Numeral.chars at hc
  cases hnegative : numeral.negative with
  | true =>
      rw [hnegative] at hc
      cases hc
      rfl
  | false =>
      have hhead : c ∈ numeral.wholeDigits.head? := by
        rw [hnegative] at hc
        simp only [Bool.false_eq_true, if_false, List.nil_append, Numeral.unsignedChars,
          List.append_assoc, List.head?_append,
          Option.or_of_isSome (List.isSome_head?.mpr h.whole.ne_nil)] at hc
        exact hc
      exact isSpace_of_isDigit (h.whole.isDigit c (List.mem_of_mem_head? hhead))

theorem cuts_null (rest : List Char) : Cuts ("null".toList ++ rest) [.scalar .null] rest :=
  cuts_of_readToken (by rintro c ⟨⟩; rfl) rfl

theorem cuts_whole (n : Int) {rest : List Char} (hrest : EndsNumeral rest) :
    Cuts ((toString n).toList ++ rest) [.scalar (Numeral.ofWhole n).value] rest := by
  rw [← Numeral.chars_ofWhole]
  exact cuts_numeral (Numeral.ofWhole_wellFormed n) hrest

theorem cuts_real (x : Number.Binary64) {rest : List Char} (hrest : EndsNumeral rest) :
    Cuts (writeReal x ++ rest) [.scalar (rereadReal x)] rest := by
  unfold rereadReal
  split
  · rename_i hfinite
    rw [← Numeral.chars_ofReal hfinite]
    exact cuts_numeral (Numeral.ofReal_wellFormed x) hrest
  · rename_i hinfinite
    rw [writeReal, if_neg hinfinite]
    exact cuts_null rest

/-! ## Written values -/

theorem writeChars_array (items : List Json) (rest : List Char) :
    (Json.array items).writeChars ++ rest = '[' :: (writeItems items ++ ']' :: rest) :=
  congrArg _ (List.append_assoc (writeItems items) [']'] rest)

theorem writeChars_object (members : List (String × Json)) (rest : List Char) :
    (Json.object members).writeChars ++ rest =
      '\x7b' :: (writeMembers members ++ '\x7d' :: rest) :=
  congrArg _ (List.append_assoc (writeMembers members) ['\x7d'] rest)

/-- A punctuation mark in front of a text that is cut. -/
theorem Cuts.mark {c : Char} {token : Token} {source rest : List Char} {tokens : List Token}
    (hspace : isSpace c = false) (htoken : readToken (c :: source) = some (token, source))
    (h : Cuts source tokens rest) : Cuts (c :: source) (token :: tokens) rest := by
  refine .cons ?_ htoken h
  rintro d ⟨⟩
  exact hspace

mutual
/-- The text of a value is cut into its tokens. -/
theorem cuts_writeChars (value : Json) {rest : List Char} (hrest : EndsNumeral rest) :
    Cuts (value.writeChars ++ rest) value.tokens rest := by
  cases value with
  | null => exact cuts_null rest
  | bool b =>
      cases b with
      | true => exact cuts_of_readToken (by rintro c ⟨⟩; rfl) rfl
      | false => exact cuts_of_readToken (by rintro c ⟨⟩; rfl) rfl
  | whole n => exact cuts_whole n hrest
  | real x => exact cuts_real x hrest
  | text s => exact cuts_string s rest
  | array items =>
      have hitems := cuts_writeItems items rest
      rw [writeChars_array]
      exact .mark rfl rfl (hitems.trans (.mark rfl rfl (.refl rest)))
  | object members =>
      have hmembers := cuts_writeMembers members rest
      rw [writeChars_object]
      exact .mark rfl rfl (hmembers.trans (.mark rfl rfl (.refl rest)))
  | unreadable => exact cuts_null rest

theorem cuts_writeItems (items : List Json) (rest : List Char) :
    Cuts (writeItems items ++ ']' :: rest) (itemTokens items) (']' :: rest) := by
  match items with
  | [] => exact .refl _
  | [item] => exact cuts_writeChars item (.cons (c := ']') (by decide) rest)
  | item :: next :: items =>
      have hitem := cuts_writeChars item
        (.cons (c := ',') (by decide) (writeItems (next :: items) ++ ']' :: rest))
      have hitems := cuts_writeItems (next :: items) rest
      rw [writeItems, itemTokens, List.append_assoc]
      · exact hitem.trans (.mark rfl rfl hitems)
      · exact List.cons_ne_nil next items
      · exact List.cons_ne_nil next items

theorem cuts_writeMembers (members : List (String × Json)) (rest : List Char) :
    Cuts (writeMembers members ++ '\x7d' :: rest) (memberTokens members) ('\x7d' :: rest) := by
  match members with
  | [] => exact .refl _
  | [(name, value)] =>
      have hvalue := cuts_writeChars value (.cons (c := '\x7d') (by decide) rest)
      rw [writeMembers, memberTokens, List.append_assoc]
      exact (cuts_string name _).trans (.mark rfl rfl hvalue)
  | (name, value) :: next :: members =>
      have hvalue := cuts_writeChars value
        (.cons (c := ',') (by decide) (writeMembers (next :: members) ++ '\x7d' :: rest))
      have hmembers := cuts_writeMembers (next :: members) rest
      rw [writeMembers, memberTokens, List.append_assoc, List.cons_append, List.append_assoc]
      · exact (cuts_string name _).trans (.mark rfl rfl (hvalue.trans (.mark rfl rfl hmembers)))
      · exact List.cons_ne_nil next members
      · exact List.cons_ne_nil next members
end

/-- The tokens of a written text. -/
theorem tokens?_writeChars (value : Json) : tokens? value.writeChars = some value.tokens := by
  have hcuts := cuts_writeChars value EndsNumeral.nil
  rw [Cuts, List.append_nil] at hcuts
  rw [hcuts, tokens?, Option.map_some, List.append_nil]

end FilterQuery.Json
