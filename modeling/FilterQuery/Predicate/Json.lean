import FilterQuery.Predicate
import FilterQuery.Value.Json

/-!
# The JSON form of a predicate

A predicate is an object with one member, named for the kind of the condition,
that holds the parts of the condition; parts are named or listed in order.  The
children of a group are an array.
-/

namespace FilterQuery

/-! ## Parts -/

namespace Context

def toJson : Context → Json
  | .root => .text "Root"
  | .join id => .object [("Join", .whole id)]

def ofJson? : Json → Option Context
  | .text "Root" => some .root
  | .object [("Root", .null)] => some .root
  | .object [("Join", id)] => (id.wholeWithin? 0 Number.ordinalLimit).map fun id => .join id.toNat
  | _ => none

end Context

namespace AttributePath

def toJson (path : AttributePath) : Json :=
  .object [("root", path.root.toJson), ("segments", .array (path.segments.map .text))]

def ofJson? (json : Json) : Option AttributePath := do
  match ← json.fields? ["root", "segments"] with
  | [root, segments] => pure { root := ← Context.ofJson? root, segments := ← segments.texts? }
  | _ => none

end AttributePath

namespace CompareOp

/-- The name of a comparison. -/
def name : CompareOp → String
  | .eq => "Eq"
  | .ne => "Ne"
  | .gt => "Gt"
  | .ge => "Ge"
  | .lt => "Lt"
  | .le => "Le"

/-- The comparison of a name. -/
def ofName? : String → Option CompareOp
  | "Eq" => some .eq
  | "Ne" => some .ne
  | "Gt" => some .gt
  | "Ge" => some .ge
  | "Lt" => some .lt
  | "Le" => some .le
  | _ => none

@[simp]
theorem ofName?_name (op : CompareOp) : ofName? op.name = some op := by
  cases op <;> rfl

/-- A comparison is its name, or an object whose only member has that name and
no content. -/
def ofJson? : Json → Option CompareOp
  | .text name => ofName? name
  | .object [(name, .null)] => ofName? name
  | _ => none

end CompareOp

/-! ## Conditions -/

namespace Predicate

mutual
def toJson : Predicate → Json
  | .compare path op value =>
      .object [("Compare", .object [("path", path.toJson), ("op", .text op.name),
        ("value", value.toJson)])]
  | .like path pattern negated =>
      .object [("Like", .object [("path", path.toJson), ("pattern", .text pattern),
        ("negated", .bool negated)])]
  | .isNull path negated =>
      .object [("IsNull", .object [("path", path.toJson), ("negated", .bool negated)])]
  | .isIn path values negated =>
      .object [("In", .object [("path", path.toJson),
        ("values", .array (values.map Value.toJson)), ("negated", .bool negated)])]
  | .and children => .object [("And", .array (childrenToJson children))]
  | .or children => .object [("Or", .array (childrenToJson children))]

def childrenToJson : List Predicate → List Json
  | [] => []
  | child :: children => child.toJson :: childrenToJson children
end

/-- The values of an array. -/
def valuesOfJson? : Json → Option (List Value)
  | .array items => items.mapM Value.ofJson?
  | _ => none

/-- The condition of a kind that is no group, with the given parts. -/
def leafOfJson? (kind : String) (json : Json) : Option Predicate :=
  match kind with
  | "Compare" => do
      match ← json.fields? ["path", "op", "value"] with
      | [path, op, value] =>
          pure (.compare (← AttributePath.ofJson? path) (← CompareOp.ofJson? op)
            (← Value.ofJson? value))
      | _ => none
  | "Like" => do
      match ← json.fields? ["path", "pattern", "negated"] with
      | [path, pattern, negated] =>
          pure (.like (← AttributePath.ofJson? path) (← pattern.text?) (← negated.bool?))
      | _ => none
  | "IsNull" => do
      match ← json.fields? ["path", "negated"] with
      | [path, negated] => pure (.isNull (← AttributePath.ofJson? path) (← negated.bool?))
      | _ => none
  | "In" => do
      match ← json.fields? ["path", "values", "negated"] with
      | [path, values, negated] =>
          pure (.isIn (← AttributePath.ofJson? path) (← valuesOfJson? values) (← negated.bool?))
      | _ => none
  | _ => none

mutual
/-- The predicate of a JSON form. -/
def ofJson? : Json → Option Predicate
  | .object [("And", .array items)] => (childrenOfJson? items).map .and
  | .object [("Or", .array items)] => (childrenOfJson? items).map .or
  | .object [(kind, parts)] => leafOfJson? kind parts
  | _ => none

/-- The children of a group, in order. -/
def childrenOfJson? : List Json → Option (List Predicate)
  | [] => some []
  | item :: items => do
      let child ← ofJson? item
      let children ← childrenOfJson? items
      pure (child :: children)
end

/-- The JSON text of a predicate. -/
def toJsonText (predicate : Predicate) : String :=
  predicate.toJson.write

/-- The predicate of a JSON text. -/
def ofJsonText? (text : String) : Option Predicate :=
  (Json.parse? text).bind ofJson?

end Predicate

end FilterQuery
