import FilterQuery.Json.Reader
import FilterQuery.Json.Writer
import FilterQuery.Number.Whole
import FilterQuery.Value

/-!
# The JSON form of a value

A value is an object with its kind under `t` and its content under `v`, or the
array of the two.  In an object the kind may be written as an object itself, of one
member without content.  Null has no content; a null as its content does no harm.  The
content may come before the kind; it is then kept until the kind is known, and
nothing in it may be unreadable.
-/

namespace FilterQuery.Value

open FilterQuery.Number

/-! ## Writing -/

/-- An object of a kind and its content. -/
def tagged (kind : String) (content : Json) : Json :=
  .object [("t", .text kind), ("v", content)]

def toJson : Value → Json
  | .null => .object [("t", .text "Null")]
  | .bool b => tagged "Bool" (.bool b)
  | .int n => tagged "Int" (.whole n.toInt)
  | .float x => tagged "Float" (.real x)
  | .text s => tagged "String" (.text s)
  | .enum ordinal name =>
      tagged "Enum" (.object [("ordinal", .whole ordinal.toNat), ("name", .text name)])
  | .instant nanos => tagged "DateTime" (.whole nanos)

/-! ## Reading -/

/-- The number of nanoseconds is given as a whole number or as its digits in a
string; either way it has to fit 128 bits with a sign. -/
def instantOfJson? : Json → Option Int
  | .whole n => some n
  | .text digits => do
      let n ← readInt? digits.toList
      if -longWordLimit ≤ n ∧ n < longWordLimit then some n else none
  | _ => none

/-- A constant of an enumeration is an object with its place and its name. -/
def enumOfJson? : Json → Option Value
  | .object members => do
      let ordinal ← (← Json.unique? members "ordinal").wholeWithin? 0 ordinalLimit
      let name ← (← Json.unique? members "name").text?
      pure (.enum (UInt32.ofNat ordinal.toNat) name)
  | _ => none

/-- The value of a kind with the given content. -/
def ofContent? (kind : String) (content : Json) : Option Value :=
  match kind with
  | "Null" => match content with
      | .null => some .null
      | _ => none
  | "Bool" => content.bool?.map .bool
  | "Int" => (content.wholeWithin? (-wordLimit) wordLimit).map fun n => .int (Int64.ofInt n)
  | "Float" => content.real?.map .float
  | "String" => content.text?.map .text
  | "Enum" => enumOfJson? content
  | "DateTime" => (instantOfJson? content).map .instant
  | _ => none

/-- The kind in an object: a string, or an object whose only member has that name
and no content. -/
def kindOfJson? : Json → Option String
  | .text kind => some kind
  | .object [(kind, .null)] => some kind
  | _ => none

/-- Whether the first of two names among the members is the given one. -/
def comesFirst (name other : String) (members : List (String × Json)) : Bool :=
  match members.find? fun member => member.1 = name || member.1 = other with
  | some member => member.1 = name
  | none => false

/-- The value of a JSON form. -/
def ofJson? : Json → Option Value
  | .object members => do
      let kind ← kindOfJson? (← Json.unique? members "t")
      match members.filter (·.1 = "v") with
      | [] => if kind = "Null" then some .null else none
      | [(_, content)] =>
          if comesFirst "v" "t" members && !content.isReadable then none
          else ofContent? kind content
      | _ => none
  | .array [.text kind, content] => ofContent? kind content
  | _ => none

/-- The JSON text of a value. -/
def toJsonText (value : Value) : String :=
  value.toJson.write

/-- The value of a JSON text. -/
def ofJsonText? (text : String) : Option Value :=
  (Json.parse? text).bind ofJson?

end FilterQuery.Value
