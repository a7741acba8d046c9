import FilterQuery.Proofs.Meaning.Correctness

/-!
# Filters with aliases

Whatever aliases there are, a comparison stands for a condition on the value where its selector
lands.  A compiled filter, executed on a store that conforms to the metadata, selects a row of
the root as often as there are choices, at the paths that its selectors need joined, with which
the filter holds.  Choices at other paths do not bear on it.
-/

namespace FilterQuery

namespace ObjectGraph

variable {graph : ObjectGraph} {query : Query} {choice other : Choice} {scope : Scope}

/-! ## What decides a comparison -/

/-- Whether a comparison holds where its selector lands. -/
def acceptsAt (graph : ObjectGraph) (choice : Choice) (scope : Scope) (node : Comparison) : Bool :=
  match ComparisonOperator.parse? node.operator, scope.landing? node.selector with
  | some operator, some landing =>
      scope.literals.accepts operator landing.type node.arguments (graph.value choice landing.path)
  | _, _ => false

/-- The choices, at the paths that a filter needs joined, with which the filter holds. -/
def matchingAt (graph : ObjectGraph) (scope : Scope) (filter : Filter) : Set Choice :=
  {choice | graph.Permits choice (scope.joinedPathsOf filter) ∧
    filter.evaluate (graph.acceptsAt choice scope)}

/-- The leaf of a comparison holds in the tuple of a choice if the comparison does. -/
theorem Covers.holds_eq_acceptsAt (covers : graph.Covers query)
    (permits : graph.Permits choice (query.routesTo query.joins.length))
    (metadata_eq : scope.metadata = graph.metadata) {node : Comparison} {leaf : Predicate}
    (landed : scope.Landed query node leaf) :
    graph.store.holds (graph.tuple choice (query.routesTo query.joins.length)) leaf =
      .ok (graph.acceptsAt choice scope node) := by
  rcases landed.condition with ⟨operator, target, meaning, located, landing_eq, condition_eq⟩
  rw [metadata_eq] at located
  rw [covers.holds_condition permits located condition_eq, acceptsAt]
  simp only [meaning, landing_eq]
  rfl

/-- A property that need not be joined has a value whatever is chosen at its path. -/
theorem content_congr {metadata : Metadata} {kind : PropertyKind} {type : AttributeType}
    (leaf : metadata.leafType? kind = some type) (place otherPlace : Nat) (datum? : Option Datum) :
    graph.content place kind datum? = graph.content otherPlace kind datum? := by
  rcases kind with type | inner | ⟨target, single | collection⟩ | type
  · rcases datum? with _ | (_ | _ | _ | _ | _) <;> rfl
  · rcases datum? with _ | (_ | _ | _ | _ | _) <;> rfl
  · rcases datum? with _ | (_ | _ | (_ | _) | _ | _) <;> rfl
  · cases leaf
  · cases leaf

/-- The choices at the routes of the joins of a query decide the values of its attributes. -/
theorem value_congr (joined : query.Joined graph.metadata)
    (root_eq : query.root = graph.root.entity) {path : AttributePath} {type : AttributeType}
    (located : query.Located graph.metadata path type)
    (agree : ∀ route ∈ routesOf query.joins, choice route = other route) :
    graph.value choice (query.route path.root ++ path.segments) =
      graph.value other (query.route path.root ++ path.segments) := by
  have agree_join (id : JoinId) (inside : id < query.joins.length) :
      choice (query.route (.join id)) = other (query.route (.join id)) :=
    agree _ (Query.mem_routesOf_joins_iff.mpr ⟨id, inside, rfl⟩)
  have at_property {context : Context} {owner : EntityId} {segments : List String}
      {kind : PropertyKind} (owner_eq : query.entityOf context = some owner)
      (kind_eq : graph.metadata.propertyAt? owner segments = some kind)
      (content_eq : ∀ datum?, graph.content (choice (query.route context ++ segments)) kind datum? =
        graph.content (other (query.route context ++ segments)) kind datum?) :
      graph.value choice (query.route context ++ segments) =
        graph.value other (query.route context ++ segments) := by
    have reach_eq : graph.reach choice (query.route context) =
        graph.reach other (query.route context) := by
      apply reach_congr joined root_eq owner_eq _ agree_join
      intro id context_eq
      rw [context_eq] at owner_eq
      rcases Query.entityOf_join_eq_some_iff.mp owner_eq with ⟨join, join_eq, -⟩
      exact (List.getElem?_eq_some_iff.mp join_eq).1
    cases reached : graph.reach other (query.route context) with
    | none =>
        obtain ⟨front, last, -, rfl, -, -⟩ := graph.metadata.exists_of_propertyAt?_eq_some kind_eq
        rw [reached] at reach_eq
        simp [value, ← List.append_assoc, reach_append, reach_eq, reached]
    | some spot =>
        obtain rfl := owner_of_reach joined root_eq owner_eq reached
        rw [value_route_append (reach_eq.trans reached) kind_eq,
          value_route_append reached kind_eq, content_eq]
  have at_join {id : JoinId} {join : Join} (join_eq : query.joins[id]? = some join) :
      graph.value choice (query.route (.join id) ++ []) =
        graph.value other (query.route (.join id) ++ []) := by
    have chosen_eq := agree_join id (List.getElem?_eq_some_iff.mp join_eq).1
    rcases joined.leads join_eq with ⟨owner, owner_eq, kind, kind_eq, -⟩
    rw [joined.route_join join_eq] at chosen_eq
    rw [List.append_nil, joined.route_join join_eq]
    exact at_property owner_eq kind_eq fun datum? => by rw [chosen_eq]
  cases located with
  | @field context segments entity kind _ entity_eq kind_eq type_eq =>
      exact at_property entity_eq kind_eq (content_congr type_eq _ _)
  | whole entity_eq type_eq =>
      rcases Query.entityOf_join_eq_some_iff.mp entity_eq with ⟨join, join_eq, -⟩
      exact at_join join_eq
  | element join_eq target_eq => exact at_join join_eq

/-- The choices at the paths that a selector needs joined decide whether its comparison holds. -/
theorem acceptsAt_congr (metadata_eq : scope.metadata = graph.metadata)
    (context_eq : scope.origin.context = .root)
    (origin_eq : scope.origin.entity = graph.root.entity) {node : Comparison}
    (agree : ∀ path ∈ scope.joinedPaths node.selector, choice path = other path) :
    graph.acceptsAt choice scope node = graph.acceptsAt other scope node := by
  cases landing_eq : scope.landing? node.selector with
  | none => simp [acceptsAt, landing_eq]
  | some landing =>
      obtain ⟨leaf, alone, resolved, joined, root_eq, located, rfl⟩ :=
        Scope.exists_of_landing?_eq_some context_eq landing_eq
      rw [Scope.joinedPaths, resolved] at agree
      rw [metadata_eq] at joined located
      have value_eq := value_congr joined (root_eq.trans origin_eq) located agree
      rw [acceptsAt, acceptsAt, landing_eq]
      cases ComparisonOperator.parse? node.operator with
      | none => rfl
      | some operator =>
          exact congrArg (scope.literals.accepts operator leaf.type node.arguments) value_eq

/-- The choices at the paths that a filter needs joined decide whether it holds. -/
theorem evaluate_acceptsAt_congr (metadata_eq : scope.metadata = graph.metadata)
    (context_eq : scope.origin.context = .root)
    (origin_eq : scope.origin.entity = graph.root.entity) {filter : Filter}
    (agree : ∀ path ∈ scope.joinedPathsOf filter, choice path = other path) :
    filter.evaluate (graph.acceptsAt choice scope) =
      filter.evaluate (graph.acceptsAt other scope) := by
  apply filter.evaluate_congr
  intro node member
  apply acceptsAt_congr metadata_eq context_eq origin_eq
  exact fun path path_mem => agree path (List.mem_flatMap.mpr ⟨node, member, path_mem⟩)

end ObjectGraph

/-! ## Compiled queries -/

namespace QueryCompiler

open ObjectGraph

variable {compiler : QueryCompiler} {store : Store} {filter : Filter} {query : Query}
  {table : Table} {row : Nat}

theorem Lands.covers (lands : compiler.Lands filter query)
    (conforms : store.Conforms compiler.metadata compiler.root)
    (found : store.HasRow ⟨compiler.root, row⟩) : (compiler.graph store row).Covers query := by
  constructor
  · exact lands.joined
  · rw [lands.root_eq]
    exact conforms
  · rw [lands.root_eq]
    exact ⟨rfl, found⟩
  · exact lands.inner

/-- The tuple of a choice passes the filter of a query if the filter that was compiled holds. -/
theorem Lands.passes_eq (lands : compiler.Lands filter query)
    (covers : (compiler.graph store row).Covers query) {choice : Choice}
    (permits : (compiler.graph store row).Permits choice (query.routesTo query.joins.length)) :
    store.passes query.filter
        ((compiler.graph store row).tuple choice (query.routesTo query.joins.length)) =
      .ok (filter.evaluate ((compiler.graph store row).acceptsAt choice compiler.scope)) := by
  rcases lands.mirrored with ⟨predicate, filter_eq, mirrors⟩
  rw [filter_eq]
  apply mirrors.holds_eq_evaluate
  intro node leaf landed
  obtain ⟨path, _, test, -, test_eq⟩ := landed.conditions.exists_test?
  exact ⟨⟨path, test, test_eq⟩, covers.holds_eq_acceptsAt permits rfl landed⟩

/-- The rows that a filter selects, in the order of their table, each of them as often as there
are choices with which the filter holds. -/
noncomputable def rowsOf (compiler : QueryCompiler) (store : Store) (table : Table)
    (filter : Filter) : List RowRef :=
  (List.range table.rows.length).flatMap fun row =>
    List.replicate ((compiler.graph store row).matchingAt compiler.scope filter).ncard
      ⟨compiler.root, row⟩

/-- A compiled query selects the rows of its filter. -/
theorem Lands.select_eq (lands : compiler.Lands filter query)
    (conforms : store.Conforms compiler.metadata compiler.root)
    (table_eq : store.get? compiler.root = some table) (distinct : Bool) :
    store.select { query with distinct } =
      .ok (if distinct then Store.withoutRepeats (compiler.rowsOf store table filter)
        else compiler.rowsOf store table filter) := by
  apply Store.select_distinct
  apply conforms.select_eq_flatMap lands.root_eq lands.joined lands.inner table_eq lands.paths
  intro row inside choice permits
  exact lands.passes_eq (lands.covers conforms ⟨table, table_eq, inside⟩) permits

/-- A row is selected if there is a choice with which the filter holds. -/
theorem Lands.mem_rowsOf_iff (lands : compiler.Lands filter query)
    (conforms : store.Conforms compiler.metadata compiler.root)
    (table_eq : store.get? compiler.root = some table) {found : RowRef} :
    found ∈ compiler.rowsOf store table filter ↔
      ∃ row < table.rows.length, found = ⟨compiler.root, row⟩ ∧
        ((compiler.graph store row).matchingAt compiler.scope filter).Nonempty := by
  simp only [rowsOf, List.mem_flatMap, List.mem_range, List.mem_replicate]
  apply exists_congr
  intro row
  apply and_congr_right
  intro inside
  have covers := lands.covers conforms ⟨table, table_eq, inside⟩
  have finite : ((compiler.graph store row).matchingAt compiler.scope filter).Finite :=
    covers.finite_passing lands.paths _
  rw [and_comm, ← Nat.pos_iff_ne_zero, Set.ncard_pos finite]

/-- A compiled query is answered, with the rows for which there is a choice. -/
theorem Lands.exists_select (lands : compiler.Lands filter query)
    (conforms : store.Conforms compiler.metadata compiler.root)
    (table_eq : store.get? compiler.root = some table) :
    ∃ rows, store.select query = .ok rows ∧ ∀ found, found ∈ rows ↔
      ∃ row < table.rows.length, found = ⟨compiler.root, row⟩ ∧
        ((compiler.graph store row).matchingAt compiler.scope filter).Nonempty := by
  refine ⟨_, lands.select_eq conforms table_eq query.distinct, ?_⟩
  intro found
  rw [← lands.mem_rowsOf_iff conforms table_eq]
  split
  · exact Store.mem_withoutRepeats
  · rfl

end QueryCompiler

end FilterQuery
