import FilterQuery.Keyed
import FilterQuery.Predicate.Display
import FilterQuery.Schema

/-!
# Stores

A store holds a table for each entity.  A table knows the field that identifies
its rows; its rows are numbered from zero and never move.  A field holds a value,
a composite, references to rows, or a collection of values.
-/

namespace FilterQuery

/-- A row of a table, which need not exist. -/
structure RowRef where
  entity : EntityId
  row : Nat
  deriving DecidableEq, Repr

/-- The content of a field. -/
inductive Datum
  | value (value : Value)
  | embedded (fields : List (String × Datum))
  | reference (row : Option RowRef)
  | references (rows : List RowRef)
  | elements (values : List Value)

/-- The fields of a row or of a composite; fields that are not there are absent. -/
abbrev Record := Keyed String Datum

structure Table where
  /-- The field that identifies a row. -/
  identifier : String
  rows : List Record := []

/-- A table for each entity that has one. -/
abbrev Store := Keyed EntityId Table

/-- Why a store cannot answer. -/
inductive StoreError
  | unknownTable (entity : EntityId)
  /-- A reference to a row that is not there. -/
  | danglingRow (row : RowRef)
  /-- A path that ends at a collection, or goes on behind a value. -/
  | notScalar (path : AttributePath)
  /-- A join that does not lead to rows. -/
  | joinWithoutRow (id : JoinId)
  deriving DecidableEq, Repr

def StoreError.message : StoreError → String
  | .unknownTable entity => "no table for entity " ++ entity.display
  | .danglingRow row =>
      "row " ++ toString row.row ++ " of entity " ++ row.entity.display ++ " does not exist"
  | .notScalar path => "attribute path " ++ path.display ++ " does not end at a single value"
  | .joinWithoutRow id =>
      "join " ++ (Context.join id).display ++ " has no entity row to navigate from"

namespace Store

/-- The store without tables. -/
def empty : Store := []

/-- Makes a table without rows, in place of the one there may be. -/
def createTable (store : Store) (entity : EntityId) (identifier : String) : Store :=
  store.put entity { identifier }

/-- The table of an entity. -/
def table (store : Store) (entity : EntityId) : Except StoreError Table :=
  match store.get? entity with
  | some table => .ok table
  | none => .error (.unknownTable entity)

/-- The fields of a row. -/
def record (store : Store) (row : RowRef) : Except StoreError Record := do
  let table ← store.table row.entity
  match table.rows[row.row]? with
  | some record => .ok record
  | none => .error (.danglingRow row)

/-- Adds a row at the end of a table. -/
def insert (store : Store) (entity : EntityId) (record : Record) :
    Except StoreError (RowRef × Store) := do
  let table ← store.table entity
  .ok ({ entity, row := table.rows.length },
    store.put entity { table with rows := table.rows ++ [record] })

/-- Gives a field of a row its content. -/
def setField (store : Store) (row : RowRef) (name : String) (datum : Datum) :
    Except StoreError Store := do
  let table ← store.table row.entity
  let record ← store.record row
  .ok (store.put row.entity { table with rows := table.rows.set row.row (record.put name datum) })

/-- The value that identifies a row; null if its field holds no value. -/
def identifierOf (store : Store) (row : RowRef) : Except StoreError Value := do
  let table ← store.table row.entity
  let record ← store.record row
  match record.get? table.identifier with
  | some (.value value) => .ok value
  | _ => .ok .null

end Store

/-- The content at a path through composites. -/
def Record.navigate? (record : Record) : List String → Option Datum
  | [] => none
  | [last] => record.get? last
  | segment :: rest =>
      match record.get? segment with
      | some (.embedded fields) => navigate? fields rest
      | _ => none

end FilterQuery
