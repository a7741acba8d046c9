import FilterQuery.Query
import FilterQuery.Store
import FilterQuery.Text.Glob

/-!
# Executing queries

A query is executed in two stages.  First the rows of the root are expanded into
tuples: a join turns each tuple into one tuple for each target of the join, and a
left join without targets into one with nothing in its place.  Then the filter is
evaluated on each tuple, and the rows at the roots of the tuples that pass are the
answer.  A query for a count gives the number of the same rows.
-/

namespace FilterQuery

/-- What a tuple has at the place of a join. -/
inductive Binding
  | row (row : RowRef)
  | element (value : Value)
  | missing
  deriving DecidableEq

/-- A row of the root with a choice of targets for the joins of a query, in the order
of the joins. -/
structure Tuple where
  root : RowRef
  joined : List Binding := []
  deriving DecidableEq

namespace Store

variable (store : Store)

/-! ## Expansion -/

/-- The row that a join starts from; there is none where a left join has found
nothing. -/
def parentRow (tuple : Tuple) : Context → Except StoreError (Option RowRef)
  | .root => .ok (some tuple.root)
  | .join id =>
      match tuple.joined[id]? with
      | some (.row row) => .ok (some row)
      | some .missing => .ok none
      | _ => .error (.joinWithoutRow id)

/-- The targets that the content of a field leads to. -/
def bindings : Option Datum → List Binding
  | some (.reference (some row)) => [.row row]
  | some (.references rows) => rows.map .row
  | some (.elements values) => values.map .element
  | _ => []

/-- The targets of an association of a row. -/
def targetsOf (path : String) : Option RowRef → Except StoreError (List Binding)
  | none => .ok []
  | some row => do
      let record ← store.record row
      .ok (bindings (record.navigate? (Text.segments path)))

/-- The targets that a join has in a tuple. -/
def targets (join : Join) (tuple : Tuple) : Except StoreError (List Binding) := do
  let parent ← parentRow tuple join.parent
  let targets ← store.targetsOf join.path parent
  .ok (if targets = [] ∧ join.kind = .left then [.missing] else targets)

/-- The tuples that a join makes of a tuple. -/
def extend (join : Join) (tuple : Tuple) : Except StoreError (List Tuple) := do
  let targets ← store.targets join tuple
  .ok (targets.map fun target => { tuple with joined := tuple.joined ++ [target] })

/-- The tuples that a join makes of some tuples. -/
def extendAll (tuples : List Tuple) (join : Join) : Except StoreError (List Tuple) := do
  let extended ← tuples.mapM (store.extend join)
  .ok extended.flatten

/-- The tuples of the rows of an entity, before any join. -/
def rootTuples (entity : EntityId) : Except StoreError (List Tuple) := do
  let table ← store.table entity
  .ok ((List.range table.rows.length).map fun row => { root := { entity, row } })

/-- The tuples of a query. -/
def expand (query : Query) : Except StoreError (List Tuple) := do
  let tuples ← store.rootTuples query.root
  query.joins.foldlM store.extendAll tuples

/-! ## Evaluation -/

/-- What a path starts from in a tuple. -/
def binding (tuple : Tuple) : Context → Except StoreError Binding
  | .root => .ok (.row tuple.root)
  | .join id =>
      match tuple.joined[id]? with
      | some binding => .ok binding
      | none => .error (.joinWithoutRow id)

/-- The value of a field; a reference stands for the identifier of its row. -/
def scalar (path : AttributePath) : Option Datum → Except StoreError Value
  | some (.value value) => .ok value
  | some (.reference (some row)) => store.identifierOf row
  | some (.references _) | some (.elements _) => .error (.notScalar path)
  | some (.embedded _) | some (.reference none) | none => .ok .null

/-- The value at a path in a tuple. -/
def read (path : AttributePath) (tuple : Tuple) : Except StoreError Value := do
  match ← binding tuple path.root, path.segments with
  | .missing, _ => .ok .null
  | .element value, [] => .ok value
  | .element _, _ => .error (.notScalar path)
  | .row row, [] => store.identifierOf row
  | .row row, segments => do
      let record ← store.record row
      store.scalar path (record.navigate? segments)

end Store

/-- Whether a comparison holds between two values.  Every comparison with null fails,
the inequality included. -/
def CompareOp.holds (op : CompareOp) (actual value : Value) : Bool :=
  match op with
  | .eq => actual.agrees value
  | .ne => !actual.isNull && !value.isNull && !actual.agrees value
  | .gt => (actual.compare value).any Ordering.isGT
  | .ge => (actual.compare value).any Ordering.isGE
  | .lt => (actual.compare value).any Ordering.isLT
  | .le => (actual.compare value).any Ordering.isLE

/-- Whether a value is a text that does or does not follow a pattern. -/
def Value.like (actual : Value) (pattern : String) (negated : Bool) : Bool :=
  match actual with
  | .text s => Text.Glob.accepts s pattern != negated
  | _ => false

/-- Whether a value is among some values, or is surely not among them: a null on
either side leaves that open. -/
def Value.among (actual : Value) (values : List Value) (negated : Bool) : Bool :=
  let found := values.any actual.agrees
  if negated then !actual.isNull && !found && !values.any Value.isNull else found

namespace Store

variable (store : Store)

mutual
/-- Whether a predicate holds of a tuple. -/
def holds (tuple : Tuple) : Predicate → Except StoreError Bool
  | .compare path op value => do
      let actual ← store.read path tuple
      .ok (op.holds actual value)
  | .like path pattern negated => do
      let actual ← store.read path tuple
      .ok (actual.like pattern negated)
  | .isNull path negated => do
      let actual ← store.read path tuple
      .ok (actual.isNull != negated)
  | .isIn path values negated => do
      let actual ← store.read path tuple
      .ok (actual.among values negated)
  | .and children => holdAll tuple children
  | .or children => holdAny tuple children

/-- Whether all predicates hold; those behind the first one that fails are not
looked at. -/
def holdAll (tuple : Tuple) : List Predicate → Except StoreError Bool
  | [] => .ok true
  | child :: children => do
      if ← holds tuple child then holdAll tuple children else .ok false

/-- Whether some predicate holds; those behind the first one that does are not
looked at. -/
def holdAny (tuple : Tuple) : List Predicate → Except StoreError Bool
  | [] => .ok false
  | child :: children => do
      if ← holds tuple child then .ok true else holdAny tuple children
end

/-- Whether a tuple passes a filter, if there is one. -/
def passes (filter : Option Predicate) (tuple : Tuple) : Except StoreError Bool :=
  match filter with
  | none => .ok true
  | some predicate => store.holds tuple predicate

/-- The roots of the tuples that pass a filter. -/
def matchingRoots (filter : Option Predicate) : List Tuple → Except StoreError (List RowRef)
  | [] => .ok []
  | tuple :: tuples => do
      let passed ← store.passes filter tuple
      let rows ← matchingRoots filter tuples
      .ok (if passed then tuple.root :: rows else rows)

/-! ## Answers -/

/-- The first occurrence of each row. -/
def withoutRepeats : List RowRef → List RowRef
  | [] => []
  | row :: rows => row :: (withoutRepeats rows).filter (· ≠ row)

@[simp]
theorem mem_withoutRepeats {row : RowRef} {rows : List RowRef} :
    row ∈ withoutRepeats rows ↔ row ∈ rows := by
  induction rows with
  | nil => simp [withoutRepeats]
  | cons first rows ih =>
      by_cases h : row = first <;> simp [withoutRepeats, ih, h]

theorem nodup_withoutRepeats (rows : List RowRef) : (withoutRepeats rows).Nodup := by
  induction rows with
  | nil => simp [withoutRepeats]
  | cons first rows ih =>
      rw [withoutRepeats, List.nodup_cons]
      exact ⟨by simp, ih.filter _⟩

/-- The rows that match a query. -/
def select (query : Query) : Except StoreError (List RowRef) := do
  let tuples ← store.expand query
  let rows ← store.matchingRoots query.filter tuples
  .ok (if query.distinct then withoutRepeats rows else rows)

/-- The number of rows that match a query. -/
def count (query : Query) : Except StoreError Nat := do
  let rows ← store.select query
  .ok rows.length

end Store

/-- The answer to a query. -/
inductive Answer
  | entities (rows : List RowRef)
  | count (n : Nat)
  deriving DecidableEq, Repr

/-- The number of matches. -/
def Answer.size : Answer → Nat
  | .entities rows => rows.length
  | .count n => n

/-- The answer that the projection of a query asks for. -/
def Store.execute (store : Store) (query : Query) : Except StoreError Answer :=
  match query.projection with
  | .entities => (store.select query).map .entities
  | .count => (store.count query).map .count

end FilterQuery
