import FilterQuery.Keyed
import FilterQuery.Toml.Quoted
import FilterQuery.Toml.Scalar

/-!
# TOML documents

A document is a sequence of lines.  A line gives a key of the current table its
value, or opens another table by its path.  Keys may be dotted.  A table may be
declared once only, and a key may be given once only; the rules about what may be
extended depend on how a table came about, which is its `TableOrigin`.

Inline tables and the earlier tables of an array of tables are checked and then
forgotten, since nothing can be added to them and no option is a table.
-/

namespace FilterQuery.Toml

open FilterQuery.Temporal (readChar)

/-- The value of a key. -/
inductive Value
  | text (s : String)
  | boolean (b : Bool)
  /-- A number, a date or a time. -/
  | scalar
  | array (items : List Value)
  | inlineTable

/-- How a table came about. -/
inductive TableOrigin
  /-- By a line of its own. -/
  | declared
  /-- As a part of the path of another table. -/
  | implied
  /-- As a part of a dotted key. -/
  | dotted
  deriving DecidableEq

/-- What stands under a key. -/
inductive Entry
  | value (value : Value)
  | table (origin : TableOrigin) (entries : List (String × Entry))
  /-- An array of tables, of which the last one can still be extended. -/
  | tables (last : List (String × Entry))

/-- The entries of a table, in order. -/
abbrev Entries := Keyed String Entry

/-! ## Building tables -/

/-- Changes the table at a path.  Tables on the way are made if need be; a dotted
key does not go into a table that has been declared. -/
def changeAt (byKey : Bool) (change : TableOrigin → Entries → Option Entries) :
    List String → TableOrigin → Entries → Option Entries
  | [], origin, entries => change origin entries
  | key :: path, _, entries =>
      match entries.get? key with
      | none =>
          let origin := if byKey then TableOrigin.dotted else .implied
          (changeAt byKey change path origin []).map fun inner =>
            entries.put key (.table origin inner)
      | some (.value _) => none
      | some (.tables last) =>
          (changeAt byKey change path .declared last).map fun inner =>
            entries.put key (.tables inner)
      | some (.table origin inner) =>
          if byKey ∧ origin = .declared then none
          else
            (changeAt byKey change path origin inner).map fun inner =>
              entries.put key (.table origin inner)

/-- Gives a new key its value; a dotted key ends in a table made by dotted keys. -/
def setKey (path : List String) (key : String) (value : Value) (entries : Entries) :
    Option Entries :=
  changeAt true
    (fun origin inner =>
      if (path ≠ [] ∧ origin ≠ .dotted) ∨ (inner.get? key).isSome then none
      else some (inner.put key (.value value)))
    path .declared entries

/-- Declares a table. -/
def declareTable (path : List String) (key : String) (entries : Entries) : Option Entries :=
  changeAt false
    (fun _ inner =>
      match inner.get? key with
      | none => some (inner.put key (.table .declared []))
      | some (.table .implied found) => some (inner.put key (.table .declared found))
      | _ => none)
    path .declared entries

/-- Declares one more table of an array of tables. -/
def declareTables (path : List String) (key : String) (entries : Entries) : Option Entries :=
  changeAt false
    (fun _ inner =>
      match inner.get? key with
      | none | some (.tables _) => some (inner.put key (.tables []))
      | _ => none)
    path .declared entries

/-! ## Keys -/

/-- How many parts the path of a table or a value may have, and how many arrays and
inline tables a value may be in. -/
def deepest : Nat :=
  79

/-- The text without the blanks at its front. -/
def skipBlanks (text : List Char) : List Char :=
  text.dropWhile isBlankChar

/-- Whether a character may stand in a key without quotes. -/
def isBareKeyChar (c : Char) : Bool :=
  c.isAlphanum || c = '_' || c = '-'

/-- Reads a part of a key. -/
def readKeyPart (text : List Char) : Option (String × List Char) :=
  let bare := text.takeWhile isBareKeyChar
  if bare ≠ [] then some (String.ofList bare, text.drop bare.length)
  else (readLine? text).map fun (part, rest) => (String.ofList part, rest)

/-- Reads the parts of a key: its path and its last part.  There may be at most as
many as the limit. -/
def readKeyParts : Nat → List Char → Option (List String × String × List Char)
  | 0, _ => none
  | limit + 1, text => do
      let (part, rest) ← readKeyPart (skipBlanks text)
      match skipBlanks rest with
      | '.' :: rest => do
          let (path, last, rest) ← readKeyParts limit rest
          pure (part :: path, last, rest)
      | rest => pure ([], part, rest)

/-- Reads a key: its path and its last part. -/
def readKey (text : List Char) : Option (List String × String × List Char) :=
  readKeyParts deepest text

/-! ## Values -/

/-- The rest of a line from its comment on, which runs to the end of the line. -/
def skipComment (text : List Char) : Option (List Char) :=
  let rest := text.dropWhile (· ≠ '\n')
  if (text.takeWhile (· ≠ '\n')).all isPlain then some rest else none

/-- The text without blanks, line ends and comments at its front.  Each line takes one
off the limit. -/
def skipLines : Nat → List Char → Option (List Char)
  | 0, _ => none
  | limit + 1, text =>
      match text.dropWhile fun c => isBlankChar c || c = '\n' with
      | '#' :: rest => (skipComment rest).bind (skipLines limit)
      | rest => some rest

/-- Reads a bare value.  A date may be followed by one blank and its time. -/
def readBare (text : List Char) : Option (Value × List Char) :=
  let word := text.takeWhile isWordChar
  let rest := text.drop word.length
  if word = "true".toList then some (.boolean true, rest)
  else if word = "false".toList then some (.boolean false, rest)
  else if isDate word then
    match rest with
    | ' ' :: behind =>
        let clock := behind.takeWhile isWordChar
        if clock = [] then some (.scalar, rest)
        else if isClock clock then some (.scalar, behind.drop clock.length)
        else none
    | _ => some (.scalar, rest)
  else if isScalar word then some (.scalar, rest)
  else none

mutual
/-- Reads a value that may hold arrays and inline tables down to a depth.  Each value,
item and key takes one off the limit. -/
def readValue : Nat → Nat → List Char → Option (Value × List Char)
  | 0, _, _ => none
  | _ + 1, 0, '[' :: _ | _ + 1, 0, '\x7b' :: _ => none
  | limit + 1, depth + 1, '[' :: text => do
      let text ← skipLines (text.length + 1) text
      match text with
      | ']' :: rest => pure (.array [], rest)
      | text => do
          let (items, rest) ← readItems limit depth text
          pure (.array items, rest)
  | limit + 1, depth + 1, '\x7b' :: text =>
      match skipBlanks text with
      | '\x7d' :: rest => some (.inlineTable, rest)
      | text => (readPairs limit depth [] text).map fun rest => (.inlineTable, rest)
  | _ + 1, _, text =>
      match text.head? with
      | some '"' | some '\'' =>
          (readString? text).map fun (s, rest) => (.text (String.ofList s), rest)
      | _ => readBare text

/-- Reads the items of an array and its closing bracket.  A comma may follow the last
item. -/
def readItems : Nat → Nat → List Char → Option (List Value × List Char)
  | 0, _, _ => none
  | limit + 1, depth, text => do
      let (item, text) ← readValue limit depth text
      match ← skipLines (text.length + 1) text with
      | ']' :: rest => pure ([item], rest)
      | ',' :: text => do
          match ← skipLines (text.length + 1) text with
          | ']' :: rest => pure ([item], rest)
          | text => do
              let (items, rest) ← readItems limit depth text
              pure (item :: items, rest)
      | _ => none

/-- Reads the pairs of an inline table and its closing brace. -/
def readPairs : Nat → Nat → Entries → List Char → Option (List Char)
  | 0, _, _, _ => none
  | limit + 1, depth, entries, text => do
      let (path, key, text) ← readKey text
      let (value, text) ← readValue limit depth (skipBlanks (← readChar '=' text))
      let entries ← setKey path key value entries
      match skipBlanks text with
      | '\x7d' :: rest => some rest
      | ',' :: text => readPairs limit depth entries text
      | _ => none
end

/-! ## Documents -/

/-- What is left of a text behind the end of a line, which may have a comment. -/
def endLine (text : List Char) : Option (List Char) :=
  match skipBlanks text with
  | [] => some []
  | '\n' :: rest => some rest
  | '#' :: rest => (skipComment rest).map (·.drop 1)
  | _ => none

/-- Reads lines.  `current` is the path of the current table; each line takes one off
the limit. -/
def readLines : Nat → List String → Entries → List Char → Option Entries
  | 0, _, _, _ => none
  | limit + 1, current, entries, text =>
      match skipBlanks text with
      | [] => some entries
      | '\n' :: rest => readLines limit current entries rest
      | '#' :: rest => do readLines limit current entries (← skipComment rest)
      | '[' :: '[' :: rest => do
          let (path, key, rest) ← readKey rest
          let rest ← endLine (← readChar ']' (← readChar ']' rest))
          readLines limit (path ++ [key]) (← declareTables path key entries) rest
      | '[' :: rest => do
          let (path, key, rest) ← readKey rest
          let rest ← endLine (← readChar ']' rest)
          readLines limit (path ++ [key]) (← declareTable path key entries) rest
      | text => do
          let (path, key, text) ← readKey text
          let text ← readChar '=' text
          let (value, rest) ← readValue (2 * text.length + 2) deepest (skipBlanks text)
          let entries ← changeAt false (fun _ inner => setKey path key value inner) current
            .declared entries
          readLines limit current entries (← endLine rest)

/-- The text with single line feeds for its line ends. -/
def singleLineFeeds : List Char → List Char
  | '\r' :: '\n' :: rest => '\n' :: singleLineFeeds rest
  | c :: rest => c :: singleLineFeeds rest
  | [] => []

/-- The text without a byte-order mark. -/
def withoutMark : List Char → List Char
  | '\uFEFF' :: rest => rest
  | text => text

/-- The entries of a document. -/
def parse? (document : String) : Option Entries :=
  let text := singleLineFeeds (withoutMark document.toList)
  readLines (text.length + 1) [] [] text

end FilterQuery.Toml
