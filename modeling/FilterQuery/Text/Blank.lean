/-!
# Blank characters and trimming

A blank is a character with the Unicode property `White_Space` (25 code
points, unchanged since Unicode 6.3).  Zero-width characters and the byte-order
mark are not blanks.  `trim` removes the blanks at both ends of a text and
leaves those inside it alone.
-/

namespace FilterQuery.Text

/-- Closed ranges of the code points of blanks, ascending and apart. -/
def blankRanges : List (Nat × Nat) :=
  [(0x09, 0x0D), (0x20, 0x20), (0x85, 0x85), (0xA0, 0xA0), (0x1680, 0x1680),
    (0x2000, 0x200A), (0x2028, 0x2029), (0x202F, 0x202F), (0x205F, 0x205F),
    (0x3000, 0x3000)]

/-- Whether a character is a blank. -/
def isBlank (c : Char) : Bool :=
  blankRanges.any fun range => range.1 ≤ c.toNat && c.toNat ≤ range.2

/-- The text without the blanks at its two ends. -/
def trimChars (text : List Char) : List Char :=
  ((text.dropWhile isBlank).reverse.dropWhile isBlank).reverse

/-- The text without the blanks at its two ends. -/
def trim (text : String) : String :=
  String.ofList (trimChars text.toList)

/-- Whether a text holds nothing but blanks. -/
def isAllBlank (text : String) : Bool :=
  text.toList.all isBlank

/-- Every character that is whitespace in ASCII is a blank. -/
theorem isBlank_of_isWhitespace {c : Char} (h : c.isWhitespace = true) : isBlank c = true := by
  simp [Char.isWhitespace] at h
  rcases h with ((h | h) | h) | h <;> subst h <;> decide

/-- A text without blanks is left alone. -/
theorem trim_eq_self {text : String} (h : ∀ c ∈ text.toList, isBlank c = false) :
    trim text = text := by
  have dropWhile_eq (chars : List Char) (hchars : ∀ c ∈ chars, isBlank c = false) :
      chars.dropWhile isBlank = chars := by
    cases chars with
    | nil => rfl
    | cons c chars => simp [hchars c List.mem_cons_self]
  rw [trim, trimChars, dropWhile_eq _ h, dropWhile_eq _ (by simpa using h), List.reverse_reverse,
    String.ofList_toList]

end FilterQuery.Text
