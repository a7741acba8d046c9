import FilterQuery.Keyed

/-!
# Entities and their properties

A compile asks metadata three questions: what an entity type is called, which
property a name stands for on it, and which property is its identifier.
`Metadata` is any answer to them; `Schema` is the answer given by a table of
declarations.
-/

namespace FilterQuery

/-- An entity type, or a type of composites stored inside entities. -/
structure EntityId where
  number : Nat
  deriving DecidableEq, Repr

/-- The text of an entity number. -/
def EntityId.display (entity : EntityId) : String :=
  toString entity.number

/-! ## Types of attributes -/

/-- What a basic value means. -/
inductive AttributeType
  | integer
  | float
  | boolean
  | text
  /-- A date or a point in time, possibly in a format of its own. -/
  | temporal (format : Option String)
  /-- One of a list of constants, ordered as declared. -/
  | enum (name : String) (variants : List String)
  /-- An opaque value stored as text. -/
  | object (typeName : String) (comparable : Bool)
  /-- An entity that stands for its identifier. -/
  | reference (entity : String) (identifier : AttributeType)
  deriving DecidableEq, Repr

namespace AttributeType

/-- Whether values of the type can be put in order. -/
def isOrderable : AttributeType → Bool
  | .object _ comparable => comparable
  | .reference _ _ => false
  | _ => true

/-- Whether a star in an argument is a wildcard. -/
def isTextual : AttributeType → Bool
  | .text => true
  | _ => false

/-- The declared name of the type. -/
def name : AttributeType → String
  | .integer => "Integer"
  | .float => "Float"
  | .boolean => "Boolean"
  | .text => "Text"
  | .temporal _ => "Temporal"
  | .enum name _ => name
  | .object typeName _ => typeName
  | .reference entity _ => entity

end AttributeType

/-! ## Properties -/

/-- How many entities an association leads to. -/
inductive Cardinality
  | single
  | collection
  deriving DecidableEq, Repr

/-- What a property of an entity holds. -/
inductive PropertyKind
  | attribute (type : AttributeType)
  /-- A composite stored inside its owner. -/
  | embedded (type : EntityId)
  | association (target : EntityId) (cardinality : Cardinality)
  /-- A collection of basic values. -/
  | elements (type : AttributeType)
  deriving DecidableEq, Repr

/-- What a compile may ask about entities. -/
structure Metadata where
  entityName : EntityId → Option String
  property : EntityId → String → Option PropertyKind
  identifier : EntityId → Option String

/-- The name of an entity in messages: its number if it has no name. -/
def Metadata.displayName (metadata : Metadata) (entity : EntityId) : String :=
  (metadata.entityName entity).getD entity.display

/-! ## Declarations -/

/-- The declaration of one entity. -/
structure EntityDeclaration where
  name : String := ""
  identifier : Option String := none
  properties : Keyed String PropertyKind := []
  deriving DecidableEq, Repr

/-- The declarations of a set of entities. -/
abbrev Schema := Keyed EntityId EntityDeclaration

namespace Schema

/-- The declaration of an entity; an entity that is not declared yet has none of
the parts. -/
def declaration (schema : Schema) (entity : EntityId) : EntityDeclaration :=
  (schema.get? entity).getD {}

/-- Gives an entity its name. -/
def withEntity (schema : Schema) (entity : EntityId) (name : String) : Schema :=
  schema.put entity { schema.declaration entity with name }

/-- Adds or replaces a property of an entity. -/
def withProperty (schema : Schema) (entity : EntityId) (name : String) (kind : PropertyKind) :
    Schema :=
  let declaration := schema.declaration entity
  schema.put entity { declaration with properties := declaration.properties.put name kind }

/-- Declares a basic attribute as the identifier of an entity. -/
def withIdentifier (schema : Schema) (entity : EntityId) (name : String) (type : AttributeType) :
    Schema :=
  let schema := schema.withProperty entity name (.attribute type)
  schema.put entity { schema.declaration entity with identifier := some name }

/-- The declarations as metadata. -/
def metadata (schema : Schema) : Metadata where
  entityName entity := (schema.get? entity).map (·.name)
  property entity name := (schema.get? entity).bind (·.properties.get? name)
  identifier entity := (schema.get? entity).bind (·.identifier)

end Schema

end FilterQuery
