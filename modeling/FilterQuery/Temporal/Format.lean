import FilterQuery.Temporal.Component

/-!
# Date formats

A date format describes how a date is written.  Its text is taken literally
except for components in brackets; `[[` stands for an opening bracket, and a
closing bracket that closes nothing for itself.  A format in brackets of its own,
behind the word `optional`, is a part that may be missing.  Of several such formats
behind the word `first`, the first one that fits counts.

Brackets are counted while a format is read, and an even number of them is open
where a format is read, an odd one inside a component.  A format in brackets may be
tried where none is needed; when that fails, reading goes on at the place where it
failed, and the brackets that are open there stay open.  From then on the count can
be out of step.  Where it is odd, the end of a format in brackets is not recognised,
and where it is even, a component cannot open a format with a pair of brackets.
-/

namespace FilterQuery.Temporal

/-- A part of a date format. -/
inductive FormatItem
  | literal (text : List Char)
  | component (component : Component)
  | optional (items : List FormatItem)
  | first (alternatives : List (List FormatItem))

/-- A date format: its parts in order. -/
abbrev DateFormat := List FormatItem

namespace DateFormat

/-- Puts a literal character in front of a format. -/
def consLiteral (c : Char) : DateFormat → DateFormat
  | .literal text :: items => .literal (c :: text) :: items
  | items => .literal [c] :: items

/-! ## Reading text -/

/-- A place in the text of a format: the number of open brackets, and the text from
there on. -/
structure Cursor where
  depth : Nat
  text : List Char

/-- How many brackets can be open. -/
def deepest : Nat :=
  255

/-- A reader moves the cursor, also when it fails. -/
abbrev Reader := OptionT (StateM Cursor)

/-- Reads on whether or not a reader fails. -/
def attempt {α : Type} (reader : Reader α) : Reader (Option α) :=
  OptionT.lift reader.run

/-- Takes the longest run of characters of a kind. -/
def takeRun (kind : Char → Bool) : Reader (List Char) := do
  let cursor ← get
  set { cursor with text := cursor.text.dropWhile kind }
  return cursor.text.takeWhile kind

namespace Cursor

/-- Whether the number of open brackets is that of a format, not of a component. -/
def isInStep (cursor : Cursor) : Bool :=
  cursor.depth % 2 = 0

/-- Whether two opening brackets follow.  In a format they stand for one. -/
def isAtPair (cursor : Cursor) : Bool :=
  "[[".toList.isPrefixOf cursor.text

end Cursor

/-- Takes an opening bracket, which is no half of a pair where the count is that of a
format. -/
def openBracket : Reader Unit := do
  let cursor ← get
  match cursor.text with
  | '[' :: rest =>
      guard (!(cursor.isInStep && cursor.isAtPair) && cursor.depth < deepest)
      set (Cursor.mk (cursor.depth + 1) rest)
  | _ => failure

/-- Takes a closing bracket. -/
def closeBracket : Reader Unit := do
  let cursor ← get
  match cursor.text with
  | ']' :: rest => set (Cursor.mk (cursor.depth - 1) rest)
  | _ => failure

/-! ## Words -/

/-- Whether a character is a blank inside brackets. -/
def isSpace (c : Char) : Bool :=
  c = ' ' || c = '\t' || c = '\n' || c = '\x0c' || c = '\r'

/-- Whether a character may belong to a name or a modifier. -/
def isWordChar (c : Char) : Bool :=
  !isSpace c && c ≠ '[' && c ≠ ']' && c ≠ '\\'

/-- A modifier is a key and a value with a colon between them. -/
def modifier? (word : List Char) : Option (String × String) :=
  let key := word.takeWhile (· ≠ ':')
  match word.dropWhile (· ≠ ':') with
  | _ :: value =>
      if key = [] ∨ value = [] then none
      else some (Component.folded key, Component.folded value)
  | [] => none

/-- Reads the modifiers of a component, each behind blanks, and whether there are more
blanks behind the last one.  There are at most as many as the limit. -/
def modifiers : Nat → Reader (Component.Modifiers × Bool)
  | 0 => failure
  | limit + 1 => do
      let spaces ← takeRun isSpace
      if spaces = [] then return ([], false)
      let word ← takeRun isWordChar
      if word = [] then return ([], true)
      let modifier ← OptionT.mk (pure (modifier? word))
      let (others, spaced) ← modifiers limit
      return (modifier :: others, spaced)

/-! ## Reading a format -/

/-- Whether modifiers say that an optional part is written, as it is without any. -/
def isWritten (modifiers : Component.Modifiers) : Bool :=
  Component.haveKeys modifiers ["format"] &&
    Component.value? modifiers "format" Component.truths true = some true

/-- The part of a format with a name, modifiers and formats in brackets.  An optional
part has one format, with blanks in front of it.  Its one modifier says whether the part
is written where dates are written, and it has to be.  A choice of formats has blanks in
front of them as well, and no modifiers. -/
def ofParts? (name : String) (modifiers : Component.Modifiers) (spaced : Bool)
    (formats : List DateFormat) : Option FormatItem :=
  if name = "optional" then
    match formats with
    | [format] =>
        if spaced && isWritten modifiers then some (.optional format) else none
    | _ => none
  else if name = "first" then
    if spaced && modifiers.isEmpty then some (.first formats) else none
  else if formats.isEmpty then (Component.ofParts? name modifiers).map .component
  else none

mutual
/-- Reads a format up to the end of the text, or up to the bracket that closes it.
Reading one character takes at most two off the limit. -/
def items (bracketed : Bool) : Nat → Reader DateFormat
  | 0 => failure
  | limit + 1 => do
      let cursor ← get
      match cursor.text with
      | [] => return []
      | c :: rest =>
          if bracketed && c = ']' && cursor.isInStep then return []
          else if cursor.isAtPair then
            set { cursor with text := rest.drop 1 }
            return consLiteral '[' (← items bracketed limit)
          else if c = '[' then
            let item ← item limit
            return item :: (← items bracketed limit)
          else
            set { cursor with text := rest }
            return consLiteral c (← items bracketed limit)

/-- Reads what stands in brackets.  Its parts are judged when it is closed.  Blanks in
front of the closing bracket are not expected once there were blanks and no format
behind them. -/
def item : Nat → Reader FormatItem
  | 0 => failure
  | limit + 1 => do
      openBracket
      let _ ← takeRun isSpace
      let name ← takeRun isWordChar
      guard (name ≠ [])
      let (modifiers, spaced) ← modifiers (limit + 1)
      let formats ← bracketedFormats limit
      if !spaced || !formats.isEmpty then
        let _ ← takeRun isSpace
      closeBracket
      OptionT.mk (pure (ofParts? (Component.folded name) modifiers spaced formats))

/-- Reads formats in brackets for as long as that does not fail. -/
def bracketedFormats : Nat → Reader (List DateFormat)
  | 0 => return []
  | limit + 1 => do
      match ← attempt (bracketedFormat limit) with
      | some format => return format :: (← bracketedFormats limit)
      | none => return []

/-- Reads a format in brackets and the blanks behind them. -/
def bracketedFormat : Nat → Reader DateFormat
  | 0 => failure
  | limit + 1 => do
      openBracket
      let format ← items true limit
      closeBracket
      let _ ← takeRun isSpace
      return format
end

/-- The format of a description. -/
def parse? (description : String) : Option DateFormat :=
  let text := description.toList
  ((items false (2 * text.length + 4)).run.run ⟨0, text⟩).1

end DateFormat

end FilterQuery.Temporal
