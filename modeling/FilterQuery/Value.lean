import FilterQuery.Number.Binary64

/-!
# Values

The values that literals are read as and that stored fields hold.  Two views of
sameness are kept apart: `compare` orders values of one kind, and integers
against floats by their exact numeric values; `agrees` is the equality that
filters use, in which a constant of an enumeration goes by its name.
-/

namespace FilterQuery

open FilterQuery.Number (Binary64)

inductive Value
  | null
  | bool (b : Bool)
  | int (n : Int64)
  | float (x : Binary64)
  | text (s : String)
  /-- A constant of an enumeration with its place in the declaration. -/
  | enum (ordinal : UInt32) (name : String)
  /-- Nanoseconds since the start of 1970 in UTC. -/
  | instant (nanos : Int)
  deriving DecidableEq

namespace Value

/-- The name of a value's kind, for messages. -/
def kindName : Value → String
  | .null => "null"
  | .bool _ => "boolean"
  | .int _ => "integer"
  | .float _ => "float"
  | .text _ => "text"
  | .enum _ _ => "enum"
  | .instant _ => "datetime"

def isNull : Value → Bool
  | .null => true
  | _ => false

/-- The order of two values.  Null and values of kinds that do not go together
are not ordered; constants of an enumeration are ordered by their places, and
texts by the code points of their characters. -/
def compare : Value → Value → Option Ordering
  | .bool a, .bool b => some (Ord.compare a b)
  | .int a, .int b => some (Ord.compare a b)
  | .float a, .float b => a.compare b
  | .int a, .float b => Binary64.compareInt a b
  | .float a, .int b => (Binary64.compareInt b a).map Ordering.swap
  | .text a, .text b => some (Ord.compare a b)
  | .enum a _, .enum b _ => some (Ord.compare a b)
  | .instant a, .instant b => some (Ord.compare a b)
  | _, _ => none

/-- Equality as filters see it.  A constant of an enumeration equals the
constants and texts that have its name; null equals nothing. -/
def agrees : Value → Value → Bool
  | .enum _ a, .enum _ b => a = b
  | .enum _ a, .text b => a = b
  | .text a, .enum _ b => a = b
  | a, b => a.compare b = some .eq

end Value

end FilterQuery
