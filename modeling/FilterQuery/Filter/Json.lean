import FilterQuery.Filter
import FilterQuery.Json.Reader
import FilterQuery.Json.Writer

/-!
# The JSON form of a filter

A node is an object whose member `type` names the kind of the node and whose
other members are the parts of the node, or an array of the kind and the parts
in order.  The parts are kept until the kind is known, so nothing in a node may be
unreadable.  Inside a group a kind may also be given by its number.
-/

namespace FilterQuery.Filter

/-! ## Writing -/

/-- The JSON form of a list of texts. -/
def textsToJson (texts : List String) : Json :=
  .array (texts.map .text)

mutual
def toJson : Filter → Json
  | .comparison node =>
      .object [("type", .text "comparison"), ("selector", .text node.selector),
        ("operator", .text node.operator), ("arguments", textsToJson node.arguments)]
  | .logical operator children =>
      .object [("type", .text "logical"), ("operator", .text operator),
        ("children", .array (childrenToJson children))]
  | .extension kind => .object [("type", .text "extension"), ("kind", .text kind)]

def childrenToJson : List Filter → List Json
  | [] => []
  | child :: children => child.toJson :: childrenToJson children
end

/-! ## Reading -/

/-- The kinds of nodes. -/
inductive NodeKind
  | comparison
  | logical
  | extension
  deriving DecidableEq

/-- The kind of a node; by its number only where that is allowed. -/
def kindOfJson? (numbered : Bool) : Json → Option NodeKind
  | .text "comparison" => some .comparison
  | .text "logical" => some .logical
  | .text "extension" => some .extension
  | .whole n =>
      if numbered then
        match n with
        | 0 => some .comparison
        | 1 => some .logical
        | 2 => some .extension
        | _ => none
      else none
  | _ => none

/-- A part of a node, also read as a list of nodes if it is one. -/
structure Part where
  json : Json
  children : Option (List Filter)

/-- The part of a name that occurs exactly once. -/
def uniquePart? (parts : List (String × Part)) (name : String) : Option Part :=
  match parts.filter (·.1 = name) with
  | [part] => some part.2
  | _ => none

/-- The node of a kind with the given parts in order. -/
def ofParts? : NodeKind → List Part → Option Filter
  | .comparison, [selector, operator, arguments] => do
      pure (.comparison {
        selector := ← selector.json.text?
        operator := ← operator.json.text?
        arguments := ← arguments.json.texts? })
  | .logical, [operator, children] => do
      pure (.logical (← operator.json.text?) (← children.children))
  | .extension, [kind] => do pure (.extension (← kind.json.text?))
  | _, _ => none

/-- The names of the parts of a kind of node, in order. -/
def partNames : NodeKind → List String
  | .comparison => ["selector", "operator", "arguments"]
  | .logical => ["operator", "children"]
  | .extension => ["kind"]

mutual
/-- The node of a JSON form. -/
def nodeOfJson? (numbered : Bool) : Json → Option Filter
  | .object members =>
      let parts := membersOfJson members
      do
        let kind ← kindOfJson? numbered (← uniquePart? parts "type").json
        ofParts? kind (← (partNames kind).mapM (uniquePart? parts))
  | .array (kind :: items) =>
      let parts := itemsOfJson items
      do ofParts? (← kindOfJson? numbered kind) parts
  | _ => none

/-- The members of an object, each also read as a list of nodes. -/
def membersOfJson : List (String × Json) → List (String × Part)
  | [] => []
  | (name, value) :: members =>
      (name, ⟨value, childrenOfJson? value⟩) :: membersOfJson members

/-- The items of an array, each also read as a list of nodes. -/
def itemsOfJson : List Json → List Part
  | [] => []
  | item :: items => ⟨item, childrenOfJson? item⟩ :: itemsOfJson items

/-- An array of nodes inside a group. -/
def childrenOfJson? : Json → Option (List Filter)
  | .array items => nodesOfJson? items
  | _ => none

/-- The nodes of a group, in order. -/
def nodesOfJson? : List Json → Option (List Filter)
  | [] => some []
  | item :: items => do
      let child ← nodeOfJson? true item
      let children ← nodesOfJson? items
      pure (child :: children)
end

/-- The filter of a JSON form. -/
def ofJson? (json : Json) : Option Filter :=
  if json.isReadable then nodeOfJson? false json else none

/-- The JSON text of a filter. -/
def toJsonText (filter : Filter) : String :=
  filter.toJson.write

/-- The filter of a JSON text. -/
def ofJsonText? (text : String) : Option Filter :=
  (Json.parse? text).bind ofJson?

end FilterQuery.Filter
