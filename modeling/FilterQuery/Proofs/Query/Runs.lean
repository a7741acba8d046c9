import FilterQuery.Proofs.Compile.Comparisons
import FilterQuery.Proofs.Query.Routes

/-!
# Runs of operations on a query

Joins can be made ahead of a compile, by compiles of whole queries and by compiles of bare
predicates, from any context and in any order, and some of these fail half way.  However a
query has come about, the numbers of its joins, their places and the index agree, and each
path of associations from the root is joined once.  The joins stay on metadata also where
strategies take part, as long as these only walk and compile.
-/

namespace FilterQuery.Query

/-- What can be done with a query. -/
inductive Operation
  | join (parent : Context) (association : String) (kind : JoinKind) (label : Option String)
  /-- A compile into the query, which is lost if the compile fails. -/
  | compileInto (projection : Projection) (configuration : Configuration) (steps : Nat)
      (filter : Filter)
  /-- A compile of a predicate, which may fail after it has made some joins. -/
  | visit (context : Option Context) (configuration : Configuration) (steps : Nat)
      (filter : Filter)
  | setFilter (filter : Option Predicate)
  | setProjection (projection : Projection)
  | setDistinct (distinct : Bool)

/-- Whether an operation goes without a strategy. -/
def Operation.BuiltIn : Operation → Prop
  | .compileInto _ configuration _ _ => configuration.tools.strategy = none
  | .visit _ configuration _ _ => configuration.tools.strategy = none
  | _ => True

/-- Whether an operation goes with a confined strategy, or without any. -/
def Operation.Confined : Operation → Prop
  | .compileInto _ configuration _ _ => configuration.Confined
  | .visit _ configuration _ _ => configuration.Confined
  | _ => True

theorem Operation.BuiltIn.confined {operation : Operation} (builtIn : operation.BuiltIn) :
    operation.Confined := by
  cases operation with
  | compileInto projection configuration steps filter =>
      exact Configuration.confined_of_strategy_eq_none builtIn
  | visit context configuration steps filter =>
      exact Configuration.confined_of_strategy_eq_none builtIn
  | _ => trivial

/-- The query after an operation. -/
def Operation.apply (metadata : Metadata) (query : Query) : Operation → Query
  | .join parent association kind label =>
      match query.join metadata parent association kind label with
      | .ok (_, next) => next
      | .error _ => query
  | .compileInto projection configuration steps filter =>
      let compiler : QueryCompiler :=
        { metadata, root := query.root, projection, configuration, steps }
      match compiler.compileInto query filter with
      | .ok next => next
      | .error _ => query
  | .visit context configuration steps filter =>
      let compiler : PredicateCompiler := { metadata, context, configuration, steps }
      (compiler.compile filter query).2
  | .setFilter filter => { query with filter }
  | .setProjection projection => { query with projection }
  | .setDistinct distinct => { query with distinct }

/-- The queries that operations make of fresh ones, under one metadata. -/
inductive Made (metadata : Metadata) : Query → Prop
  | select (root : EntityId) : Made metadata (.select root)
  | count (root : EntityId) : Made metadata (.count root)
  | apply {query : Query} (made : Made metadata query) (operation : Operation)
      (builtIn : operation.BuiltIn) : Made metadata (operation.apply metadata query)

/-- The queries that operations make of fresh ones where strategies walk and compile only, under
one metadata. -/
inductive Arises (metadata : Metadata) : Query → Prop
  | select (root : EntityId) : Arises metadata (.select root)
  | count (root : EntityId) : Arises metadata (.count root)
  | apply {query : Query} (arises : Arises metadata query) (operation : Operation)
      (confined : operation.Confined) : Arises metadata (operation.apply metadata query)

/-- The joins of a query agree with their numbers and their index, hang off the root or an
earlier join of an entity, and tell the paths from the root apart. -/
structure JoinTable (query : Query) : Prop where
  id_eq : ∀ (i : Nat) (join : Join), query.joins[i]? = some join → join.id = i
  eq_of_key_eq : ∀ (i j : Nat) (first second : Join), query.joins[i]? = some first →
    query.joins[j]? = some second → first.parent = second.parent → first.path = second.path → i = j
  get?_index_iff : ∀ (parent : Context) (path : String) (id : JoinId),
    query.index.get? (parent, path) = some id ↔
      ∃ join, query.joins[id]? = some join ∧ join.parent = parent ∧ join.path = path
  parent_lt : ∀ (i : Nat) (join : Join) (id : JoinId), query.joins[i]? = some join →
    join.parent = .join id →
      id < i ∧ ∃ above entity, query.joins[id]? = some above ∧ above.target = .entity entity
  route_eq : ∀ (i : Nat) (join : Join), query.joins[i]? = some join →
    query.route (.join i) = query.route join.parent ++ Text.segments join.path
  eq_of_route_eq : ∀ i j : Nat, i < query.joins.length → j < query.joins.length →
    query.route (.join i) = query.route (.join j) → i = j

variable {metadata : Metadata} {query : Query}

/-- A query that is joined along metadata has its joins in order. -/
theorem Joined.joinTable (joined : query.Joined metadata) : query.JoinTable where
  id_eq _ _ join_eq := joined.id_eq join_eq
  eq_of_key_eq _ _ _ _ first_eq second_eq := joined.numbered.eq_of_key_eq first_eq second_eq
  get?_index_iff _ _ _ := joined.get?_index_iff
  parent_lt i join id join_eq parent_eq := by
    rcases joined.leads join_eq with ⟨owner, owner_eq, -⟩
    rw [parent_eq] at owner_eq
    rcases entityOf_join_eq_some_iff.mp owner_eq with ⟨above, above_eq, target_eq⟩
    exact ⟨joined.parent_lt join_eq parent_eq, above, owner, above_eq, target_eq⟩
  route_eq _ _ join_eq := joined.route_join join_eq
  eq_of_route_eq i j first second route_eq :=
    joined.eq_of_route_eq (List.getElem?_eq_getElem first) (List.getElem?_eq_getElem second)
      route_eq

theorem JoinTable.numbered (table : query.JoinTable) : query.Numbered :=
  ⟨table.id_eq _ _, table.get?_index_iff _ _ _,
    fun join_eq parent_eq => (table.parent_lt _ _ _ join_eq parent_eq).1⟩

/-- Each operation keeps a query joined along metadata. -/
theorem Joined.apply (joined : query.Joined metadata) {operation : Operation}
    (confined : operation.Confined) : (operation.apply metadata query).Joined metadata := by
  cases operation with
  | join parent association kind label =>
      rw [Operation.apply]
      split
      · rename_i id next made
        exact joined.join made
      · exact joined
  | compileInto projection configuration steps filter =>
      rw [Operation.apply]
      split
      · rename_i result compiled
        obtain ⟨predicate, next, grown, rfl⟩ := QueryCompiler.exists_grown_of_compileInto_eq_ok
          { metadata, root := query.root, projection, configuration, steps } joined confined
          compiled
        exact grown.joined.congr rfl rfl rfl
      · exact joined
  | visit context configuration steps filter =>
      exact PredicateCompiler.joined_compile { metadata, context, configuration, steps } joined
        confined filter
  | setFilter filter => exact joined.congr rfl rfl rfl
  | setProjection projection => exact joined.congr rfl rfl rfl
  | setDistinct distinct => exact joined.congr rfl rfl rfl

theorem Arises.joined (arises : Arises metadata query) : query.Joined metadata := by
  induction arises with
  | select root => exact joined_of_joins_eq_nil rfl rfl
  | count root => exact joined_of_joins_eq_nil rfl rfl
  | apply _ operation confined joined => exact joined.apply confined

theorem Made.arises (made : Made metadata query) : query.Arises metadata := by
  induction made with
  | select root => exact .select root
  | count root => exact .count root
  | apply _ operation builtIn arises => exact arises.apply operation builtIn.confined

theorem Made.joined (made : Made metadata query) : query.Joined metadata :=
  made.arises.joined

/-- However operations have made a query, its joins are in order, and each path of associations
from the root is joined once. -/
theorem joinTable_of_made (made : Made metadata query) : query.JoinTable :=
  made.joined.joinTable

/-- Employees, each with a manager. -/
def staff : Metadata :=
  Schema.metadata
    [(⟨1⟩, { name := "Employee", identifier := some "id",
             properties := [("id", .attribute .integer), ("manager", .association ⟨1⟩ .single)] })]

theorem joinTable_of_made_staff :
    ∃ query, Made staff query ∧ query.JoinTable ∧
      query.joins.map (fun join => (join.parent, join.path)) =
        [(.root, "manager"), (.join 0, "manager")] := by
  let chief : Filter := .comparison ⟨"manager.manager.id", "==", ["1"]⟩
  have joined := (Made.select ⟨1⟩ : Made staff _).apply (.join .root "manager" .left (some "m"))
    trivial
  have refused := joined.apply (.visit none {} 0 chief) rfl
  have made := refused.apply (.visit (some .root) {} 0 chief) rfl
  exact ⟨_, made, joinTable_of_made made, by decide +kernel⟩

end FilterQuery.Query
