import FilterQuery.CompileError
import FilterQuery.Predicate.Display
import FilterQuery.Schema
import FilterQuery.Text.Segments

/-!
# Queries

A query asks for the rows of a root entity, or for their number.  Its joins are
numbered in the order in which they were made; a join hangs off the root or off
an earlier join and follows one association path there.  `index` finds the join
of a parent and a path, so that an association which is followed again shares the
join it has already.
-/

namespace FilterQuery

/-- What a query gives. -/
inductive Projection
  /-- The rows that match. -/
  | entities
  /-- The number of rows that match. -/
  | count
  deriving DecidableEq, Repr

/-- What a join leads to. -/
inductive JoinTarget
  /-- Rows of an entity. -/
  | entity (id : EntityId)
  /-- Elements of a collection of basic values. -/
  | elements (type : AttributeType)
  deriving DecidableEq, Repr

/-- The entity that a join leads to. -/
def JoinTarget.entity? : JoinTarget → Option EntityId
  | .entity id => some id
  | .elements _ => none

/-- What becomes of a parent without targets. -/
inductive JoinKind
  /-- It is dropped. -/
  | inner
  /-- It is kept with nothing at the join's place. -/
  | left
  deriving DecidableEq, Repr

/-- An association that a query follows. -/
structure Join where
  id : JoinId
  parent : Context
  /-- The dotted path of the association from its parent, through composites. -/
  path : String
  target : JoinTarget
  kind : JoinKind := .inner
  /-- The alias of the join, with which a selector may start. -/
  label : Option String := none
  deriving DecidableEq, Repr

structure Query where
  root : EntityId
  projection : Projection
  /-- Whether each row is given or counted once. -/
  distinct : Bool := false
  joins : List Join := []
  index : Keyed (Context × String) JoinId := []
  filter : Option Predicate := none

namespace Query

/-- A query for the rows of an entity. -/
def select (root : EntityId) : Query :=
  { root, projection := .entities }

/-- A query for the number of rows of an entity. -/
def count (root : EntityId) : Query :=
  { root, projection := .count }

/-- The join of a number. -/
def join? (query : Query) (id : JoinId) : Option Join :=
  query.joins[id]?

/-- The first join of an alias. -/
def joinLabeled? (query : Query) (label : String) : Option Join :=
  query.joins.find? fun join => join.label = some label

/-- The entity whose rows a context ranges over; a join of elements has none. -/
def entityOf (query : Query) : Context → Option EntityId
  | .root => some query.root
  | .join id => (query.join? id).bind (·.target.entity?)

@[simp]
theorem entityOf_root (query : Query) : query.entityOf .root = some query.root :=
  rfl

/-! ## Making joins -/

/-- The join of a parent and a path, made as an inner join if there is none yet. -/
def ensureJoin (query : Query) (parent : Context) (path : String) (target : JoinTarget) :
    JoinId × Query :=
  match query.index.get? (parent, path) with
  | some id => (id, query)
  | none =>
      let id := query.joins.length
      (id, { query with
        joins := query.joins ++ [{ id, parent, path, target }]
        index := query.index.put (parent, path) id })

theorem ensureJoin_of_get?_eq_some {query : Query} {parent : Context} {path : String}
    {id : JoinId} (h : query.index.get? (parent, path) = some id) (target : JoinTarget) :
    query.ensureJoin parent path target = (id, query) := by
  simp [ensureJoin, h]

/-- A join that has been made is found again. -/
theorem ensureJoin_ensureJoin (query : Query) (parent : Context) (path : String)
    (target other : JoinTarget) :
    (query.ensureJoin parent path target).2.ensureJoin parent path other =
      query.ensureJoin parent path target := by
  cases h : query.index.get? (parent, path) with
  | some id => simp [ensureJoin, h]
  | none => simp [ensureJoin, h]

/-- Where an association path leads: through composites to an association or a
collection of values. -/
def associationTarget (metadata : Metadata) (owner : EntityId) :
    List String → Except CompileError (Option JoinTarget)
  | [] => .ok none
  | [last] =>
      match metadata.property owner last with
      | some (.association target _) => .ok (some (.entity target))
      | some (.elements type) => .ok (some (.elements type))
      | _ => .error (.unknownProperty last (metadata.displayName owner))
  | segment :: rest =>
      match metadata.property owner segment with
      | some (.embedded inner) => associationTarget metadata inner rest
      | _ => .error (.unknownProperty segment (metadata.displayName owner))

/-- Gives a join its kind, and an alias if there is one to give. -/
def establish (query : Query) (id : JoinId) (kind : JoinKind) (label : Option String) : Query :=
  { query with
    joins := query.joins.modify id fun join => { join with kind, label := label <|> join.label } }

/-- Joins an association of a context ahead of a compile, which will use the join
as it was established. -/
def join (query : Query) (metadata : Metadata) (parent : Context) (association : String)
    (kind : JoinKind) (label : Option String) : Except CompileError (JoinId × Query) := do
  let nowhere := CompileError.unknownProperty association parent.display
  let some owner := query.entityOf parent | .error nowhere
  let some target ← associationTarget metadata owner (Text.segments association) | .error nowhere
  let (id, query) := query.ensureJoin parent association target
  .ok (id, query.establish id kind label)

theorem associationTarget_ne_none (metadata : Metadata) (owner : EntityId)
    {segments : List String} (h : segments ≠ []) :
    associationTarget metadata owner segments ≠ .ok none := by
  fun_induction associationTarget metadata owner segments <;> simp_all

end Query

end FilterQuery
