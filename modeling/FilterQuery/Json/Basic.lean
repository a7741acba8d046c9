import FilterQuery.Number.Binary64

/-!
# JSON values

Whole numbers and real numbers are kept apart: a number written without point
and exponent that fits 64 bits is whole, every other number is real.  The
members of an object keep their order and may repeat a name.

A well-formed piece of text that stands for no value here (a number beyond the
range of reals, an unpaired surrogate, an array or object too far inside others)
is `unreadable`.  It does no harm in a place that nobody reads.
-/

namespace FilterQuery

inductive Json
  | null
  | bool (b : Bool)
  | whole (n : Int)
  | real (x : Number.Binary64)
  | text (s : String)
  | array (items : List Json)
  | object (members : List (String × Json))
  | unreadable

namespace Json

/-! ## Readable values -/

mutual
/-- Whether no part of a value is unreadable. -/
def isReadable : Json → Bool
  | .array items => areReadable items
  | .object members => membersReadable members
  | .unreadable => false
  | _ => true

def areReadable : List Json → Bool
  | [] => true
  | item :: items => item.isReadable && areReadable items

def membersReadable : List (String × Json) → Bool
  | [] => true
  | (_, value) :: members => value.isReadable && membersReadable members
end

/-! ## Members -/

/-- The member of a name that occurs exactly once. -/
def unique? (members : List (String × Json)) (name : String) : Option Json :=
  match members.filter (·.1 = name) with
  | [member] => some member.2
  | _ => none

/-- A record with the given field names: an object that holds each of them
exactly once, other members aside, or an array of just the fields in order. -/
def fields? (names : List String) : Json → Option (List Json)
  | .object members => names.mapM (unique? members)
  | .array items => if items.length = names.length then some items else none
  | _ => none

def text? : Json → Option String
  | .text s => some s
  | _ => none

def bool? : Json → Option Bool
  | .bool b => some b
  | _ => none

/-- A whole number within the given bounds, the upper one excluded. -/
def wholeWithin? (lower upper : Int) : Json → Option Int
  | .whole n => if lower ≤ n ∧ n < upper then some n else none
  | _ => none

/-- A number of any kind as a real. -/
def real? : Json → Option Number.Binary64
  | .whole n => some (.ofInt n)
  | .real x => some x
  | _ => none

def texts? : Json → Option (List String)
  | .array items => items.mapM text?
  | _ => none

end Json

end FilterQuery
