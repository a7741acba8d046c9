import FilterQuery.Json.Number

/-!
# Tokens of JSON text

Text is cut into punctuation marks and scalars; blanks between them are spaces,
tabs and line ends.  Each reader takes what it reads off the front of the text
and gives the rest, which is shorter, so cutting ends.
-/

namespace FilterQuery.Json

open FilterQuery.Number

inductive Token
  | openBracket
  | closeBracket
  | openBrace
  | closeBrace
  | comma
  | colon
  /-- A string; `none` if it holds an unpaired surrogate. -/
  | string (s : Option String)
  /-- A number, `true`, `false` or `null`. -/
  | scalar (value : Json)

/-! ## Strings -/

/-- The number written by four hexadecimal digits. -/
def hex? (a b c d : Char) : Option Nat := do
  let a ← hexDigit? a
  let b ← hexDigit? b
  let c ← hexDigit? c
  let d ← hexDigit? d
  pure (((a * 16 + b) * 16 + c) * 16 + d)

/-- Whether a 16-bit unit opens a surrogate pair. -/
def isHighSurrogate (unit : Nat) : Bool :=
  0xD800 ≤ unit && unit < 0xDC00

/-- Whether a 16-bit unit closes a surrogate pair. -/
def isLowSurrogate (unit : Nat) : Bool :=
  0xDC00 ≤ unit && unit < 0xE000

/-- The character of a surrogate pair. -/
def ofSurrogates (high low : Nat) : Char :=
  Char.ofNat (0x10000 + (high - 0xD800) * 0x400 + (low - 0xDC00))

/-- The character of a one-letter escape. -/
def unescape? : Char → Option Char
  | '"' => some '"'
  | '\\' => some '\\'
  | '/' => some '/'
  | 'b' => some '\x08'
  | 'f' => some '\x0c'
  | 'n' => some '\n'
  | 'r' => some '\r'
  | 't' => some '\t'
  | _ => none

/-- What one position of a string stands for: a character, or half of one. -/
inductive Piece
  | char (c : Char)
  | surrogate (unit : Nat)

/-- The piece of a 16-bit unit. -/
def Piece.ofUnit (unit : Nat) : Piece :=
  if isHighSurrogate unit || isLowSurrogate unit then .surrogate unit
  else .char (Char.ofNat unit)

/-- The characters of the pieces of a string; `none` if half a character stands
alone. -/
def joinPieces? : List Piece → Option (List Char)
  | [] => some []
  | .char c :: pieces => (joinPieces? pieces).map (c :: ·)
  | .surrogate high :: .surrogate low :: pieces =>
      if isHighSurrogate high && isLowSurrogate low then
        (joinPieces? pieces).map (ofSurrogates high low :: ·)
      else none
  | .surrogate _ :: _ => none

/-- Puts a piece in front of a string that has been read. -/
def consPiece (piece : Piece) (spelled : List Piece × List Char) : List Piece × List Char :=
  (piece :: spelled.1, spelled.2)

@[simp]
theorem consPiece_snd (piece : Piece) (spelled : List Piece × List Char) :
    (consPiece piece spelled).2 = spelled.2 :=
  rfl

/-- Reads a string behind its opening quote; gives its pieces and the text
behind its closing quote.  Control characters have to be escaped. -/
def readString : List Char → Option (List Piece × List Char)
  | [] => none
  | '"' :: rest => some ([], rest)
  | '\\' :: 'u' :: a :: b :: c :: d :: rest =>
      match hex? a b c d with
      | some unit => (readString rest).map (consPiece (.ofUnit unit))
      | none => none
  | '\\' :: letter :: rest =>
      match unescape? letter with
      | some c => (readString rest).map (consPiece (.char c))
      | none => none
  | c :: rest =>
      if c = '\\' ∨ c.toNat < 0x20 then none
      else (readString rest).map (consPiece (.char c))

theorem readString_length {source : List Char} {spelled : List Piece × List Char}
    (h : readString source = some spelled) : spelled.2.length < source.length := by
  fun_induction readString source generalizing spelled with
  | case1 => cases h
  | case2 rest =>
      cases h
      simp
  | case3 a b c d rest unit hunit ih =>
      obtain ⟨inner, hinner, rfl⟩ := Option.map_eq_some_iff.mp h
      have := ih hinner
      simp only [consPiece_snd, List.length_cons]
      omega
  | case4 => cases h
  | case5 letter rest _ c hc ih =>
      obtain ⟨inner, hinner, rfl⟩ := Option.map_eq_some_iff.mp h
      have := ih hinner
      simp only [consPiece_snd, List.length_cons]
      omega
  | case6 => cases h
  | case7 => cases h
  | case8 c rest _ _ _ _ ih =>
      obtain ⟨inner, hinner, rfl⟩ := Option.map_eq_some_iff.mp h
      have := ih hinner
      simp only [consPiece_snd, List.length_cons]
      omega

/-! ## Numbers -/

/-- Reads the decimal places behind a point, if there is one. -/
def readPlaces : List Char → Option (Option (List Char) × List Char)
  | '.' :: rest =>
      let places := rest.takeWhile Char.isDigit
      if places = [] then none else some (some places, rest.dropWhile Char.isDigit)
  | source => some (none, source)

/-- Reads an exponent behind its letter, if there is one. -/
def readExponent : List Char → Option (Option Int × List Char)
  | [] => some (none, [])
  | c :: rest =>
      if c = 'e' ∨ c = 'E' then
        let (negative, source) := (readSign? rest).getD (false, rest)
        let digits := source.takeWhile Char.isDigit
        if digits = [] then none
        else
          let magnitude : Int := ofDigits digits
          some (some (if negative then -magnitude else magnitude), source.dropWhile Char.isDigit)
      else some (none, c :: rest)

/-- Takes the whole digits of a number: a zero alone, or digits from another
digit on. -/
def readWholeDigits : List Char → Option (List Char × List Char)
  | '0' :: rest => some (['0'], rest)
  | source =>
      let digits := source.takeWhile Char.isDigit
      if digits = [] then none else some (digits, source.dropWhile Char.isDigit)

/-- Reads a number behind its sign. -/
def readNumeral (negative : Bool) (source : List Char) : Option (Numeral × List Char) := do
  let (wholeDigits, source) ← readWholeDigits source
  let (places, source) ← readPlaces source
  let (exponent, source) ← readExponent source
  pure (⟨negative, wholeDigits, places, exponent⟩, source)

theorem length_dropWhile_le (p : Char → Bool) (source : List Char) :
    (source.dropWhile p).length ≤ source.length :=
  (List.dropWhile_sublist p).length_le

theorem length_dropWhile_lt {p : Char → Bool} {source : List Char}
    (h : source.takeWhile p ≠ []) : (source.dropWhile p).length < source.length := by
  have hsum := congrArg List.length (List.takeWhile_append_dropWhile (p := p) (l := source))
  have hpos := List.length_pos_iff.mpr h
  simp only [List.length_append] at hsum
  omega

theorem readPlaces_length {source : List Char} {result : Option (List Char) × List Char}
    (h : readPlaces source = some result) : result.2.length ≤ source.length := by
  unfold readPlaces at h
  split at h
  · rename_i rest
    dsimp only at h
    split at h
    · cases h
    · cases h
      have := length_dropWhile_le Char.isDigit rest
      simp only [List.length_cons]
      omega
  · cases h
    exact Nat.le_refl _

theorem readSign_getD_length (source : List Char) :
    ((readSign? source).getD (false, source)).2.length ≤ source.length := by
  unfold readSign?
  split <;> simp

theorem readExponent_length {source : List Char} {result : Option Int × List Char}
    (h : readExponent source = some result) : result.2.length ≤ source.length := by
  unfold readExponent at h
  split at h
  · cases h
    exact Nat.le_refl _
  · rename_i c rest
    split at h
    · dsimp only at h
      split at h
      · cases h
      · cases h
        have := length_dropWhile_le Char.isDigit ((readSign? rest).getD (false, rest)).2
        have := readSign_getD_length rest
        simp only [List.length_cons]
        omega
    · cases h
      exact Nat.le_refl _

theorem readWholeDigits_length {source : List Char} {result : List Char × List Char}
    (h : readWholeDigits source = some result) : result.2.length < source.length := by
  unfold readWholeDigits at h
  split at h
  · cases h
    simp
  · dsimp only at h
    split at h
    · cases h
    · rename_i hdigits
      cases h
      exact length_dropWhile_lt hdigits

theorem readNumeral_length {negative : Bool} {source : List Char} {result : Numeral × List Char}
    (h : readNumeral negative source = some result) : result.2.length < source.length := by
  simp only [readNumeral, Option.bind_eq_bind, Option.bind_eq_some_iff] at h
  obtain ⟨digits, hdigits, places, hplaces, exponent, hexponent, hresult⟩ := h
  cases hresult
  have := readWholeDigits_length hdigits
  have := readPlaces_length hplaces
  have := readExponent_length hexponent
  dsimp only
  omega

/-! ## Cutting -/

/-- Whether a character may stand between tokens. -/
def isSpace (c : Char) : Bool :=
  c = ' ' || c = '\n' || c = '\t' || c = '\r'

/-- Reads one token off the front of a text that starts with no space. -/
def readToken : List Char → Option (Token × List Char)
  | '[' :: rest => some (.openBracket, rest)
  | ']' :: rest => some (.closeBracket, rest)
  | '\x7b' :: rest => some (.openBrace, rest)
  | '\x7d' :: rest => some (.closeBrace, rest)
  | ',' :: rest => some (.comma, rest)
  | ':' :: rest => some (.colon, rest)
  | 't' :: 'r' :: 'u' :: 'e' :: rest => some (.scalar (.bool true), rest)
  | 'f' :: 'a' :: 'l' :: 's' :: 'e' :: rest => some (.scalar (.bool false), rest)
  | 'n' :: 'u' :: 'l' :: 'l' :: rest => some (.scalar .null, rest)
  | '"' :: rest =>
      (readString rest).map fun (pieces, rest) =>
        (.string ((joinPieces? pieces).map String.ofList), rest)
  | '-' :: rest =>
      (readNumeral true rest).map fun (numeral, rest) => (.scalar numeral.value, rest)
  | source =>
      (readNumeral false source).map fun (numeral, rest) => (.scalar numeral.value, rest)

theorem readToken_length {source : List Char} {result : Token × List Char}
    (h : readToken source = some result) : result.2.length < source.length := by
  unfold readToken at h
  split at h
  case h_10 =>
    obtain ⟨spelled, hspelled, rfl⟩ := Option.map_eq_some_iff.mp h
    have := readString_length hspelled
    simp only [List.length_cons]
    omega
  case h_11 =>
    obtain ⟨numeral, hnumeral, rfl⟩ := Option.map_eq_some_iff.mp h
    have := readNumeral_length hnumeral
    simp only [List.length_cons]
    omega
  case h_12 =>
    obtain ⟨numeral, hnumeral, rfl⟩ := Option.map_eq_some_iff.mp h
    exact readNumeral_length hnumeral
  all_goals
    cases h
    simp only [List.length_cons]
    omega

/-- Cuts a text into its tokens. -/
def tokens? : List Char → Option (List Token)
  | [] => some []
  | c :: source =>
      if isSpace c then tokens? source
      else
        match h : readToken (c :: source) with
        | none => none
        | some (token, rest) =>
            have : rest.length < (c :: source).length := readToken_length h
            (tokens? rest).map (token :: ·)
  termination_by source => source.length
  decreasing_by
    · exact Nat.lt_succ_self _
    · exact this

end FilterQuery.Json
