import FilterQuery.Json.Basic
import FilterQuery.Number.Shortest

/-!
# Writing JSON text

Values are written without any space.  In strings only quotes, backslashes and
control characters are escaped, the latter with a letter where there is one.
Real numbers keep a decimal point or an exponent, so that they are read back as
real.
-/

namespace FilterQuery.Json

open FilterQuery.Number

/-- Reals have a decimal place and are written out from 0.00001 up to sixteen
digits before the point; a tie goes to the even decimal.  There is no text for
infinities and NaN, so they are written as nulls. -/
def realLayout : NumberLayout where
  tie := .toEven
  positional := fun place => -5 < place && place ≤ 16
  wholeSuffix := ".0"
  infinite := "null"
  nan := "null"

/-- The text of a real. -/
def writeReal (x : Binary64) : List Char :=
  if x.isFinite then (realLayout.write x).toList else "null".toList

/-- One hexadecimal digit in lower case. -/
def hexChar (n : Nat) : Char :=
  if n < 10 then Char.ofNat ('0'.toNat + n) else Char.ofNat ('a'.toNat + (n - 10))

/-- The letter of a one-letter escape. -/
def escapeLetter? : Char → Option Char
  | '"' => some '"'
  | '\\' => some '\\'
  | '\x08' => some 'b'
  | '\x0c' => some 'f'
  | '\n' => some 'n'
  | '\r' => some 'r'
  | '\t' => some 't'
  | _ => none

/-- A character inside a string. -/
def escape (c : Char) : List Char :=
  match escapeLetter? c with
  | some letter => ['\\', letter]
  | none =>
      if c.toNat < 0x20 then
        ['\\', 'u', '0', '0', hexChar (c.toNat / 16), hexChar (c.toNat % 16)]
      else [c]

/-- A string with its quotes. -/
def writeString (s : String) : List Char :=
  '"' :: s.toList.flatMap escape ++ ['"']

mutual
/-- The characters of a value. -/
def writeChars : Json → List Char
  | .null => "null".toList
  | .bool true => "true".toList
  | .bool false => "false".toList
  | .whole n => (toString n).toList
  | .real x => writeReal x
  | .text s => writeString s
  | .array items => '[' :: writeItems items ++ [']']
  | .object members => '\x7b' :: writeMembers members ++ ['\x7d']
  | .unreadable => "null".toList

/-- The items of an array with commas between them. -/
def writeItems : List Json → List Char
  | [] => []
  | [item] => item.writeChars
  | item :: items => item.writeChars ++ ',' :: writeItems items

/-- The members of an object with commas between them. -/
def writeMembers : List (String × Json) → List Char
  | [] => []
  | [(name, value)] => writeString name ++ ':' :: value.writeChars
  | (name, value) :: members =>
      writeString name ++ ':' :: value.writeChars ++ ',' :: writeMembers members
end

/-- The text of a value. -/
def write (value : Json) : String :=
  String.ofList value.writeChars

end FilterQuery.Json
