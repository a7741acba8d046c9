import FilterQuery.Proofs.Meaning.Enumeration
import FilterQuery.Proofs.Store.Soundness

/-!
# Tuples are choices

The tuples that an execution makes of a row of the root are the choices that the joins
permit, in the order in which they are listed.  What a tuple has at the place of a join is
the chosen target, and an attribute read in the tuple has the value that its route stands
for.
-/

namespace FilterQuery.ObjectGraph

variable {graph : ObjectGraph} {query : Query} {choice : Choice}

/-- The row of the root with the chosen target at each path. -/
def tuple (graph : ObjectGraph) (choice : Choice) (paths : List (List String)) : Tuple where
  root := graph.root
  joined := paths.map fun path => (graph.targets choice path)[choice path]?.getD .missing

/-- A query whose root and joins fit a graph, with plain joins only. -/
structure Covers (graph : ObjectGraph) (query : Query) : Prop where
  joined : query.Joined graph.metadata
  conforms : graph.store.Conforms graph.metadata query.root
  root_of : graph.store.RowOf query.root graph.root
  inner : ∀ join ∈ query.joins, join.kind = .inner

theorem Covers.root_eq (covers : graph.Covers query) : query.root = graph.root.entity :=
  covers.root_of.1.symm

theorem joined_tuple_routesTo {count : Nat} {id : JoinId} (below : id < count) :
    (graph.tuple choice (query.routesTo count)).joined[id]? =
      some ((graph.targets choice (query.route (.join id)))[
        choice (query.route (.join id))]?.getD .missing) := by
  simp [tuple, Query.routesTo, below]

/-- A row that is there is read with its fields. -/
theorem record_eq_fieldsOf {row : RowRef} (found : graph.store.HasRow row) :
    graph.store.record row = .ok (graph.store.fieldsOf row) := by
  rcases found.exists_record with ⟨table, record, -, -, record_eq⟩
  rw [Store.fieldsOf, record_eq]
  rfl

theorem Covers.fieldsOf_conforms (covers : graph.Covers query) {entity : EntityId} {row : RowRef}
    (needed : graph.metadata.NeedsTable query.root entity)
    (row_of : graph.store.RowOf entity row) :
    Record.Conforms graph.metadata graph.store entity (graph.store.fieldsOf row) :=
  covers.conforms.fieldsOf_conforms needed row_of

/-- The targets of a join are those of the row that its parent leads to. -/
theorem Covers.targets_eq_bindings (covers : graph.Covers query) {i : Nat} {join : Join}
    (join_eq : query.joins[i]? = some join) {owner : EntityId} {above : RowRef}
    (owner_eq : query.entityOf join.parent = some owner) (above_of : graph.store.RowOf owner above)
    (reached : graph.reach choice (query.route join.parent) =
      some ⟨owner, graph.store.fieldsOf above⟩) :
    graph.targets choice (query.route (.join i)) =
        Store.bindings (Record.navigate? (graph.store.fieldsOf above) (Text.segments join.path)) ∧
      ∀ binding ∈ graph.targets choice (query.route (.join i)),
        binding ≠ .missing ∧ binding.Fits graph.store join.target := by
  have targets_eq : graph.targets choice (query.route (.join i)) =
      Store.bindings (Record.navigate? (graph.store.fieldsOf above) (Text.segments join.path)) := by
    rw [targets_route covers.joined covers.root_eq join_eq, reached]
  refine ⟨targets_eq, ?_⟩
  intro binding member
  rw [targets_eq] at member
  refine ⟨fun missing => Store.missing_not_mem_bindings _ (missing ▸ member), ?_⟩
  rcases covers.joined.leads join_eq with ⟨owner', owner_eq', kind, kind_eq, leads⟩
  obtain rfl : owner = owner' := Option.some.inj (owner_eq.symm.trans owner_eq')
  have conforms := covers.fieldsOf_conforms (covers.joined.needsTable owner_eq) above_of
  cases found : Record.navigate? (graph.store.fieldsOf above) (Text.segments join.path) with
  | none =>
      rw [found] at member
      cases member
  | some datum =>
      rw [found] at member
      exact (conforms.navigate? kind_eq found).bindings_fit leads binding member

theorem Covers.root_row (covers : graph.Covers query) {entity : EntityId}
    (root_eq : query.entityOf .root = some entity) :
    graph.store.RowOf entity graph.root ∧
      graph.reach choice (query.route .root) = some ⟨entity, graph.store.fieldsOf graph.root⟩ := by
  obtain rfl : query.root = entity := Option.some.inj root_eq
  refine ⟨covers.root_of, ?_⟩
  rw [covers.root_eq]
  rfl

/-- The row that is chosen for a join, below the row of its parent. -/
theorem Covers.exists_row_below (covers : graph.Covers query) {count : Nat}
    (permits : graph.Permits choice (query.routesTo count)) {id : JoinId} (inside : id < count)
    {join : Join} (join_eq : query.joins[id]? = some join) {owner entity : EntityId}
    (owner_eq : query.entityOf join.parent = some owner) (target_eq : join.target = .entity entity)
    {above : RowRef} (above_of : graph.store.RowOf owner above)
    (reached : graph.reach choice (query.route join.parent) =
      some ⟨owner, graph.store.fieldsOf above⟩) :
    ∃ row, (graph.tuple choice (query.routesTo count)).joined[id]? = some (.row row) ∧
      graph.store.RowOf entity row ∧
      graph.reach choice (query.route (.join id)) =
        some ⟨entity, graph.store.fieldsOf row⟩ := by
  rcases covers.targets_eq_bindings join_eq owner_eq above_of reached with ⟨-, targets_fit⟩
  rcases permits.exists_target (Query.mem_routesTo_iff.mpr ⟨id, inside, rfl⟩) with
    ⟨target, target_mem, chosen⟩
  rcases targets_fit target target_mem with ⟨present, fits⟩
  have reached_join : graph.reach choice (query.route (.join id)) = _ :=
    reach_route_join covers.joined covers.root_eq join_eq target_eq
  rw [chosen] at reached_join
  rw [target_eq] at fits
  cases target with
  | row row =>
      refine ⟨row, ?_, fits, reached_join⟩
      rw [joined_tuple_routesTo inside, chosen, Option.getD_some]
  | missing => exact absurd rfl present
  | element value => cases fits

/-- In the tuple of a choice the place of a context has the row that its route leads to. -/
theorem Covers.exists_row (covers : graph.Covers query) {count : Nat}
    (permits : graph.Permits choice (query.routesTo count)) {context : Context}
    {entity : EntityId} (entity_eq : query.entityOf context = some entity)
    (below : ∀ id, context = .join id → id < count) :
    ∃ row, Store.parentRow (graph.tuple choice (query.routesTo count)) context = .ok (some row) ∧
      Store.binding (graph.tuple choice (query.routesTo count)) context = .ok (.row row) ∧
      graph.store.RowOf entity row ∧
      graph.reach choice (query.route context) = some ⟨entity, graph.store.fieldsOf row⟩ := by
  cases context with
  | root => exact ⟨graph.root, rfl, rfl, covers.root_row entity_eq⟩
  | join id =>
      have inside := below id rfl
      clear below
      induction id using Nat.strongRecOn generalizing entity with
      | ind id ih =>
          rcases Query.entityOf_join_eq_some_iff.mp entity_eq with ⟨join, join_eq, target_eq⟩
          rcases covers.joined.leads join_eq with ⟨owner, owner_eq, -⟩
          obtain ⟨above, above_of, reached⟩ : ∃ above, graph.store.RowOf owner above ∧
              graph.reach choice (query.route join.parent) =
                some ⟨owner, graph.store.fieldsOf above⟩ := by
            cases parent : join.parent with
            | root =>
                rw [parent] at owner_eq
                exact ⟨graph.root, covers.root_row owner_eq⟩
            | join parentId =>
                have lower := covers.joined.parent_lt join_eq parent
                rw [parent] at owner_eq
                rcases ih parentId lower owner_eq (Nat.lt_trans lower inside) with
                  ⟨above, -, -, above_of, reached⟩
                exact ⟨above, above_of, reached⟩
          rcases covers.exists_row_below permits inside join_eq owner_eq target_eq above_of
            reached with ⟨row, bound, row_of, reached_join⟩
          refine ⟨row, ?_, ?_, row_of, reached_join⟩
          · simp [Store.parentRow, bound]
          · simp [Store.binding, bound]

/-! ## Expansion -/

/-- The targets that a join has in the tuple of a choice. -/
theorem Covers.targets_tuple (covers : graph.Covers query) {count : Nat} {join : Join}
    (join_eq : query.joins[count]? = some join)
    (permits : graph.Permits choice (query.routesTo count)) :
    graph.store.targets join (graph.tuple choice (query.routesTo count)) =
      .ok (graph.targets choice (query.route (.join count))) := by
  rcases covers.joined.leads join_eq with ⟨owner, owner_eq, -⟩
  obtain ⟨above, parent_eq, -, above_of, reached⟩ := covers.exists_row permits owner_eq
    fun id parent => covers.joined.parent_lt join_eq parent
  rcases covers.targets_eq_bindings join_eq owner_eq above_of reached with ⟨targets_eq, -⟩
  have kind_eq : join.kind = .inner := covers.inner join (List.mem_of_getElem? join_eq)
  simp [Store.targets, parent_eq, Store.targetsOf, record_eq_fieldsOf above_of.2, targets_eq,
    kind_eq, bind, Except.bind]

/-- A join extends the tuple of a choice by its targets, one tuple for each. -/
theorem Covers.extend_tuple (covers : graph.Covers query) {count : Nat} {join : Join}
    (join_eq : query.joins[count]? = some join)
    (permits : graph.Permits choice (query.routesTo count)) :
    graph.store.extend join (graph.tuple choice (query.routesTo count)) =
      .ok ((List.range (graph.targets choice (query.route (.join count))).length).map fun place =>
        graph.tuple (Function.update choice (query.route (.join count)) place)
          (query.routesTo (count + 1))) := by
  have inside : count < query.joins.length := (List.getElem?_eq_some_iff.mp join_eq).1
  -- the choice at the new join does not change the places in front of it
  have tuple_eq (place : Nat)
      (place_lt : place < (graph.targets choice (query.route (.join count))).length) :
      graph.tuple (Function.update choice (query.route (.join count)) place)
          (query.routesTo (count + 1)) =
        { graph.tuple choice (query.routesTo count) with
          joined := (graph.tuple choice (query.routesTo count)).joined ++
            [(graph.targets choice (query.route (.join count)))[place]] } := by
    have places_eq : (query.routesTo count).map (fun path =>
        (graph.targets (Function.update choice (query.route (.join count)) place) path)[
          Function.update choice (query.route (.join count)) place path]?.getD .missing) =
        (graph.tuple choice (query.routesTo count)).joined := by
      apply List.map_congr_left
      intro path member
      rw [update_of_mem_routesTo covers.joined inside place member]
      rcases Query.mem_routesTo_iff.mp member with ⟨id, below, rfl⟩
      rw [targets_update covers.joined covers.root_eq (Nat.le_of_lt below) inside]
    have last_eq : graph.targets (Function.update choice (query.route (.join count)) place)
        (query.route (.join count)) = graph.targets choice (query.route (.join count)) :=
      targets_update covers.joined covers.root_eq le_rfl inside place
    rw [tuple, Query.routesTo_succ, List.map_append, places_eq]
    simp [last_eq, tuple, place_lt]
  rw [Store.extend, covers.targets_tuple join_eq permits]
  apply congrArg Except.ok
  apply List.ext_getElem (by simp)
  intro place _ place_lt
  have place_lt' : place < (graph.targets choice (query.route (.join count))).length := by
    simpa using place_lt
  simp [tuple_eq place place_lt']

/-- The tuples of the choices that the first joins of a query permit. -/
def tuples (graph : ObjectGraph) (query : Query) (count : Nat) : List Tuple :=
  (graph.choices (query.routesTo count)).map (graph.tuple · (query.routesTo count))

/-- A join extends the tuples of the joins in front of it to those with the join. -/
theorem Covers.flatMap_extended (covers : graph.Covers query) {count : Nat} {join : Join}
    (join_eq : query.joins[count]? = some join) {extended : Tuple → List Tuple}
    (extend_eq : ∀ tuple ∈ graph.tuples query count,
      graph.store.extend join tuple = .ok (extended tuple)) :
    (graph.tuples query count).flatMap extended = graph.tuples query (count + 1) := by
  have inside : count < query.joins.length := (List.getElem?_eq_some_iff.mp join_eq).1
  rw [tuples, tuples, List.flatMap_map, Query.routesTo_succ, choices_concat, List.map_flatMap,
    ← Query.routesTo_succ]
  apply List.flatMap_congr
  intro choice member
  have permits := (mem_choices_iff covers.joined covers.root_eq (Nat.le_of_lt inside)).mp member
  have extended_eq := extend_eq _ (List.mem_map_of_mem member)
  rw [covers.extend_tuple join_eq permits] at extended_eq
  rw [List.map_map]
  exact (Except.ok.inj extended_eq).symm

end FilterQuery.ObjectGraph

namespace FilterQuery

variable {metadata : Metadata} {store : Store} {query : Query}

open ObjectGraph

/-- A join makes, of the tuples of all rows for the joins in front of it, those with the join. -/
theorem Store.Conforms.extendAll_tuples (conforms : store.Conforms metadata query.root)
    (joined : query.Joined metadata) (inner : ∀ join ∈ query.joins, join.kind = .inner)
    {table : Table} (table_eq : store.get? query.root = some table) {count : Nat} {join : Join}
    (join_eq : query.joins[count]? = some join) :
    store.extendAll ((List.range table.rows.length).flatMap fun row =>
        tuples ⟨metadata, store, ⟨query.root, row⟩⟩ query count) join =
      .ok ((List.range table.rows.length).flatMap fun row =>
        tuples ⟨metadata, store, ⟨query.root, row⟩⟩ query (count + 1)) := by
  have inside : count < query.joins.length := (List.getElem?_eq_some_iff.mp join_eq).1
  have covers (row : Nat) (row_mem : row ∈ List.range table.rows.length) :
      (⟨metadata, store, ⟨query.root, row⟩⟩ : ObjectGraph).Covers query :=
    ⟨joined, conforms, ⟨rfl, table, table_eq, List.mem_range.mp row_mem⟩, inner⟩
  let extended (tuple : Tuple) := (store.extend join tuple).toOption.getD []
  have extend_eq (row : Nat) (row_mem : row ∈ List.range table.rows.length) :
      ∀ tuple ∈ tuples ⟨metadata, store, ⟨query.root, row⟩⟩ query count,
        store.extend join tuple = .ok (extended tuple) := by
    intro tuple member
    rcases List.mem_map.mp member with ⟨choice, choice_mem, rfl⟩
    have extend_eq := (covers row row_mem).extend_tuple join_eq
      ((mem_choices_iff joined rfl (Nat.le_of_lt inside)).mp choice_mem)
    simp only [extended]
    rw [extend_eq]
    rfl
  have all_extend_eq : ∀ tuple ∈ (List.range table.rows.length).flatMap fun row =>
      tuples ⟨metadata, store, ⟨query.root, row⟩⟩ query count,
        store.extend join tuple = .ok (extended tuple) := by
    intro tuple member
    rcases List.mem_flatMap.mp member with ⟨row, row_mem, tuple_mem⟩
    exact extend_eq row row_mem tuple tuple_mem
  rw [extendAll_eq_flatMap all_extend_eq, List.flatMap_assoc]
  apply congrArg Except.ok
  apply List.flatMap_congr
  intro row row_mem
  exact (covers row row_mem).flatMap_extended join_eq (extend_eq row row_mem)

/-- The tuples of the first joins of a query with plain joins: for each row of the root, in order,
the choices that these joins permit. -/
theorem Store.Conforms.expand_front_eq_flatMap (conforms : store.Conforms metadata query.root)
    (joined : query.Joined metadata) (inner : ∀ join ∈ query.joins, join.kind = .inner)
    {table : Table} (table_eq : store.get? query.root = some table) {front back : List Join}
    (joins_eq : query.joins = front ++ back) :
    store.expand { query with joins := front } =
      .ok ((List.range table.rows.length).flatMap fun row =>
        tuples ⟨metadata, store, ⟨query.root, row⟩⟩ query front.length) := by
  suffices expanded :
      front.foldlM store.extendAll
          ((List.range table.rows.length).map fun row => { root := ⟨query.root, row⟩ }) =
        .ok ((List.range table.rows.length).flatMap fun row =>
          tuples ⟨metadata, store, ⟨query.root, row⟩⟩ query front.length) by
    rw [expand, rootTuples_eq table_eq]
    exact expanded
  induction front using List.reverseRecOn generalizing back with
  | nil => simp [tuples, Query.routesTo, choices, tuple, List.map_eq_flatMap, pure, Except.pure]
  | append_singleton joins join ih =>
      rw [List.append_assoc, List.singleton_append] at joins_eq
      have join_eq : query.joins[joins.length]? = some join := by simp [joins_eq]
      rw [List.foldlM_append, ih joins_eq]
      change store.extendAll _ join >>= pure = _
      rw [conforms.extendAll_tuples joined inner table_eq join_eq, List.length_append]
      rfl

/-- The tuples of a query with plain joins are the choices that its joins permit. -/
theorem Store.Conforms.expand_eq_flatMap (conforms : store.Conforms metadata query.root)
    (joined : query.Joined metadata) (inner : ∀ join ∈ query.joins, join.kind = .inner)
    {table : Table} (table_eq : store.get? query.root = some table) :
    store.expand query =
      .ok ((List.range table.rows.length).flatMap fun row =>
        tuples ⟨metadata, store, ⟨query.root, row⟩⟩ query query.joins.length) :=
  conforms.expand_front_eq_flatMap joined inner table_eq (List.append_nil _).symm

end FilterQuery
