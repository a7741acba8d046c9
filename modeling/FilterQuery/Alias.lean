import FilterQuery.Schema

/-!
# Aliases of properties

An alias is a name for a dotted path, valid on one entity type.  `Mapper` is any
answer to the question what an alias stands for; `AliasTable` is the answer given
by a table for each entity.  A table that has been cleared maps nothing and is
started afresh by the next addition.
-/

namespace FilterQuery

/-- What an alias stands for on an entity type. -/
abbrev Mapper := EntityId → String → Option String

/-- The aliases of each entity, unless they have been cleared. -/
structure AliasTable where
  mapping : Option (Keyed EntityId (Keyed String String)) := some []
  deriving DecidableEq, Repr

namespace AliasTable

/-- The table without aliases. -/
def empty : AliasTable := {}

/-- What an alias stands for on an entity. -/
def map (table : AliasTable) : Mapper := fun entity name => do
  let mapping ← table.mapping
  let aliases ← mapping.get? entity
  aliases.get? name

/-- Replaces all aliases of an entity. -/
def setEntity (table : AliasTable) (entity : EntityId) (aliases : Keyed String String) :
    AliasTable :=
  { mapping := some ((table.mapping.getD []).put entity aliases) }

/-- The aliases of an entity. -/
def aliases (table : AliasTable) (entity : EntityId) : Keyed String String :=
  ((table.mapping.getD []).get? entity).getD []

/-- Adds or replaces one alias. -/
def add (table : AliasTable) (entity : EntityId) (name path : String) : AliasTable :=
  table.setEntity entity ((table.aliases entity).put name path)

/-- Drops one alias and gives the path it stood for.  The entity keeps its
place in the table. -/
def remove (table : AliasTable) (entity : EntityId) (name : String) :
    Option String × AliasTable :=
  match table.mapping, table.map entity name with
  | some _, some path => (some path, table.setEntity entity ((table.aliases entity).erase name))
  | _, _ => (none, table)

@[simp]
theorem map_empty (entity : EntityId) (name : String) : empty.map entity name = none :=
  rfl

theorem map_setEntity (table : AliasTable) (entity other : EntityId)
    (aliases : Keyed String String) (name : String) :
    (table.setEntity entity aliases).map other name =
      if entity = other then aliases.get? name else table.map other name := by
  rcases table with ⟨_ | mapping⟩
  · by_cases h : entity = other <;> simp [setEntity, map, Keyed.put, Keyed.get?, h]
  · by_cases h : entity = other <;> simp [setEntity, map, Keyed.get?_put, h]

end AliasTable

end FilterQuery
