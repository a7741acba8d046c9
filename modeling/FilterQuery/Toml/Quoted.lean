import FilterQuery.Number.Whole

/-!
# Strings of TOML

A basic string stands between double quotes and has escapes; a literal string
stands between single quotes and has none.  Between triple quotes either may go
over several lines; up to two further quotes right in front of the closing ones
belong to the string.  Line ends are single line feeds here: the reader of a
document has already replaced the others.
-/

namespace FilterQuery.Toml

/-- Whether a character may stand in a comment or a string: any but control
characters other than the tab. -/
def isPlain (c : Char) : Bool :=
  c = '\t' || (' ' ≤ c && c ≠ '\x7f')

/-- Whether a character is a blank within a line. -/
def isBlankChar (c : Char) : Bool :=
  c = ' ' || c = '\t'

/-- A string that has been read, and what follows it. -/
abbrev StringReading := Option (List Char × List Char)

/-- Puts a character in front of a string. -/
def StringReading.cons (c : Char) (reading : StringReading) : StringReading :=
  reading.map fun (text, rest) => (c :: text, rest)

/-! ## Escapes -/

/-- The character of a code point given in exactly the given number of digits. -/
def codePoint? (width : Nat) (text : List Char) : Option (Char × List Char) := do
  let digits ← (text.take width).mapM Number.hexDigit?
  let code := digits.foldl (fun n digit => 16 * n + digit) 0
  if digits.length = width ∧ code.isValidChar then
    some (Char.ofNat code, text.drop width)
  else none

/-- The character of an escape, behind the backslash. -/
def escape? : List Char → Option (Char × List Char)
  | 'b' :: rest => some ('\x08', rest)
  | 't' :: rest => some ('\t', rest)
  | 'n' :: rest => some ('\n', rest)
  | 'f' :: rest => some ('\x0c', rest)
  | 'r' :: rest => some ('\r', rest)
  | '"' :: rest => some ('"', rest)
  | '\\' :: rest => some ('\\', rest)
  | 'u' :: rest => codePoint? 4 rest
  | 'U' :: rest => codePoint? 8 rest
  | _ => none

/-! ## Strings on one line -/

/-- The rest of a basic string.  Each character read takes one off the limit. -/
def basic : Nat → List Char → StringReading
  | 0, _ | _, [] => none
  | _ + 1, '"' :: rest => some ([], rest)
  | limit + 1, '\\' :: rest => do
      let (c, rest) ← escape? rest
      StringReading.cons c (basic limit rest)
  | limit + 1, c :: rest => if isPlain c then .cons c (basic limit rest) else none

/-- The rest of a literal string. -/
def literal : List Char → StringReading
  | [] => none
  | '\'' :: rest => some ([], rest)
  | c :: rest => if isPlain c then .cons c (literal rest) else none

/-! ## Strings on several lines -/

/-- The quotes of a string in front of its end, once three quotes have been read. -/
def furtherQuotes (quote : Char) (text : List Char) : List Char × List Char :=
  let quotes := (text.take 2).takeWhile (· = quote)
  (quotes, text.drop quotes.length)

/-- A backslash at the end of a line, blanks aside, goes with all the blanks and line
ends that follow it. -/
def lineContinuation? (text : List Char) : Option (List Char) :=
  match text.dropWhile isBlankChar with
  | '\n' :: rest => some (rest.dropWhile fun c => isBlankChar c || c = '\n')
  | _ => none

/-- The rest of a basic string that may have several lines. -/
def basicLines : Nat → List Char → StringReading
  | 0, _ | _, [] => none
  | _ + 1, '"' :: '"' :: '"' :: rest => some (furtherQuotes '"' rest)
  | limit + 1, '\\' :: rest =>
      match lineContinuation? rest with
      | some rest => basicLines limit rest
      | none => do
          let (c, rest) ← escape? rest
          StringReading.cons c (basicLines limit rest)
  | limit + 1, c :: rest =>
      if isPlain c || c = '\n' then .cons c (basicLines limit rest) else none

/-- The rest of a literal string that may have several lines. -/
def literalLines : List Char → StringReading
  | [] => none
  | '\'' :: '\'' :: '\'' :: rest => some (furtherQuotes '\'' rest)
  | c :: rest => if isPlain c || c = '\n' then .cons c (literalLines rest) else none

/-- The text without a line end at its front. -/
def dropLineEnd : List Char → List Char
  | '\n' :: rest => rest
  | text => text

/-! ## All strings -/

/-- Reads a string on one line. -/
def readLine? : List Char → StringReading
  | '"' :: rest => basic (rest.length + 1) rest
  | '\'' :: rest => literal rest
  | _ => none

/-- Reads a string of any kind. -/
def readString? : List Char → StringReading
  | '"' :: '"' :: '"' :: rest => basicLines (rest.length + 1) (dropLineEnd rest)
  | '\'' :: '\'' :: '\'' :: rest => literalLines (dropLineEnd rest)
  | text => readLine? text

end FilterQuery.Toml
