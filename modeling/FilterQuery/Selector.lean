import FilterQuery.Alias
import FilterQuery.Query

/-!
# Selectors

A selector is a dotted path that starts at a context of a query.  It is walked
one segment at a time.  In front of each step the longest run of leading segments
that is an alias on the current owner is replaced by what the alias stands for.
Composites extend the path within the current context, associations and
collections of values lead into a join, and the walk stops at an attribute or at
the first segment that does not fit.

Aliases may lead back to themselves, so a walk need not stop.  It is given a step
for each segment of the selector and a number of further steps, and one that has
used them all is still walking.
-/

namespace FilterQuery

/-- Where selectors start. -/
structure Origin where
  context : Context
  entity : EntityId
  deriving DecidableEq, Repr

/-- The origin at the root of a query for an entity. -/
def Origin.root (entity : EntityId) : Origin :=
  { context := .root, entity }

/-- What a selector leads to. -/
structure Attribute where
  path : AttributePath
  /-- The property at the end of the path. -/
  name : String
  type : AttributeType
  deriving DecidableEq, Repr

namespace Selector

/-- A walk under way. -/
structure Walk where
  /-- The context that the walk has reached. -/
  context : Context
  /-- The type that owns the next property. -/
  owner : EntityId
  /-- The composites passed since the context was entered. -/
  embedded : List String
  /-- The segments that are left. -/
  pending : List String
  /-- The query with the joins made so far. -/
  query : Query

/-- How far a walk has come.  Joins made on the way stay in the query even if the
walk fails. -/
inductive Progress
  | walking (walk : Walk)
  | stopped (outcome : Except CompileError Attribute) (query : Query)

/-! ## Aliases -/

/-- Replaces the longest run of at most the given number of leading segments that
is an alias. -/
def expandWithin (mapper : Mapper) (owner : EntityId) (pending : List String) :
    Nat → List String
  | 0 => pending
  | length + 1 =>
      match mapper owner (Text.dotted (pending.take (length + 1))) with
      | some path => Text.segments path ++ pending.drop (length + 1)
      | none => expandWithin mapper owner pending length

/-- Replaces the longest run of leading segments that is an alias on the owner. -/
def expand (mapper : Mapper) (owner : EntityId) (pending : List String) : List String :=
  expandWithin mapper owner pending pending.length

theorem expandWithin_ne_nil (mapper : Mapper) (owner : EntityId) {pending : List String}
    (h : pending ≠ []) (length : Nat) : expandWithin mapper owner pending length ≠ [] := by
  induction length with
  | zero => exact h
  | succ length ih =>
      rw [expandWithin]
      split
      · simp [Text.segments_ne_nil]
      · exact ih

/-- Segments that are left are not used up by aliases. -/
theorem expand_ne_nil (mapper : Mapper) (owner : EntityId) {pending : List String}
    (h : pending ≠ []) : expand mapper owner pending ≠ [] :=
  expandWithin_ne_nil mapper owner h pending.length

/-! ## Walking -/

variable (metadata : Metadata)

/-- The type of an entity that stands for its identifier. -/
def referenceType (target : EntityId) : Except CompileError AttributeType :=
  match metadata.identifier target with
  | none => .error (.unknownProperty "<identifier>" (metadata.displayName target))
  | some identifier =>
      match metadata.property target identifier with
      | some (.attribute type) => .ok (.reference (metadata.displayName target) type)
      | _ => .error (.unknownProperty identifier (metadata.displayName target))

/-- The outcome of a walk that ends at an entity. -/
def entityOutcome (path : AttributePath) (name : String) (target : EntityId) :
    Except CompileError Attribute :=
  (referenceType metadata target).map fun type => { path, name, type }

/-- The outcome of a walk that ends at a basic value, after which no segment may
follow. -/
def valueOutcome (path : AttributePath) (name : String) (type : AttributeType) :
    List String → Except CompileError Attribute
  | [] => .ok { path, name, type }
  | next :: _ => .error (.unknownProperty next type.name)

/-- Follows an association.  A single entity at the end of a selector is read off
its owner; otherwise the association is joined. -/
def stepAssociation (walk : Walk) (segment : String) (rest : List String) (target : EntityId)
    (cardinality : Cardinality) : Progress :=
  let path := walk.embedded ++ [segment]
  match rest, cardinality with
  | [], .single =>
      .stopped (entityOutcome metadata ⟨walk.context, path⟩ segment target) walk.query
  | _, _ =>
      let (id, query) := walk.query.ensureJoin walk.context (Text.dotted path) (.entity target)
      match rest with
      | [] => .stopped (entityOutcome metadata ⟨.join id, []⟩ segment target) query
      | _ =>
          .walking { context := .join id, owner := target, embedded := [], pending := rest, query }

/-- Follows a collection of values, which ends a selector. -/
def stepElements (walk : Walk) (segment : String) (rest : List String) (type : AttributeType) :
    Progress :=
  match rest with
  | next :: _ => .stopped (.error (.unknownProperty next type.name)) walk.query
  | [] =>
      let path := Text.dotted (walk.embedded ++ [segment])
      let (id, query) := walk.query.ensureJoin walk.context path (.elements type)
      .stopped (.ok { path := ⟨.join id, []⟩, name := segment, type }) query

/-- Takes one segment. -/
def step (mapper : Mapper) (selector : String) (walk : Walk) : Progress :=
  match expand mapper walk.owner walk.pending with
  | [] =>
      .stopped (.error (.unknownProperty selector (metadata.displayName walk.owner))) walk.query
  | segment :: rest =>
      let path := walk.embedded ++ [segment]
      match metadata.property walk.owner segment with
      | none =>
          .stopped (.error (.unknownProperty segment (metadata.displayName walk.owner))) walk.query
      | some (.attribute type) =>
          .stopped (valueOutcome ⟨walk.context, path⟩ segment type rest) walk.query
      | some (.embedded inner) =>
          match rest with
          | [] =>
              let type := AttributeType.object (metadata.displayName inner) false
              .stopped (.ok { path := ⟨walk.context, path⟩, name := segment, type }) walk.query
          | _ => .walking { walk with owner := inner, embedded := path, pending := rest }
      | some (.association target cardinality) =>
          stepAssociation metadata walk segment rest target cardinality
      | some (.elements type) => stepElements walk segment rest type

/-- Takes at most the given number of steps. -/
def run (mapper : Mapper) (selector : String) : Nat → Walk → Progress
  | 0, walk => .walking walk
  | steps + 1, walk =>
      match step metadata mapper selector walk with
      | .walking next => run mapper selector steps next
      | .stopped outcome query => .stopped outcome query

@[simp]
theorem run_zero (mapper : Mapper) (selector : String) (walk : Walk) :
    run metadata mapper selector 0 walk = .walking walk :=
  rfl

/-- A walk that has stopped is not changed by further steps. -/
theorem run_add_of_stopped {mapper : Mapper} {selector : String} {steps : Nat} {walk : Walk}
    {outcome : Except CompileError Attribute} {query : Query}
    (h : run metadata mapper selector steps walk = .stopped outcome query) (more : Nat) :
    run metadata mapper selector (steps + more) walk = .stopped outcome query := by
  induction steps generalizing walk with
  | zero => simp at h
  | succ steps ih =>
      rw [Nat.add_right_comm, run]
      rw [run] at h
      split at h
      · exact ih h
      · exact h

/-! ## Starting -/

/-- Starts at a join named by its alias. -/
def startAtJoin (query : Query) (join : Join) (selector : String) (rest : List String) :
    Progress :=
  let path : AttributePath := ⟨.join join.id, []⟩
  match join.target, rest with
  | .entity target, [] => .stopped (entityOutcome metadata path selector target) query
  | .entity target, _ =>
      .walking
        { context := .join join.id, owner := target, embedded := [], pending := rest, query }
  | .elements type, _ => .stopped (valueOutcome path selector type rest) query

/-- Starts at an origin; from the root, a first segment that is the alias of a
join starts at that join. -/
def start (query : Query) (origin : Origin) (selector : String) : Progress :=
  let pending := Text.segments selector
  let join? := match origin.context with
    | .root => pending.head?.bind query.joinLabeled?
    | .join _ => none
  match join? with
  | some join => startAtJoin metadata query join selector pending.tail
  | none =>
      .walking
        { context := origin.context, owner := origin.entity, embedded := [], pending, query }

/-- Walks a selector from an origin, with a step for each of its segments and the
given number of further steps for what aliases add. -/
def resolve (mapper : Mapper) (steps : Nat) (query : Query) (origin : Origin)
    (selector : String) : Progress :=
  match start metadata query origin selector with
  | .walking walk => run metadata mapper selector (walk.pending.length + steps) walk
  | .stopped outcome query => .stopped outcome query

end Selector

end FilterQuery
