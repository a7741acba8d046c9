import FilterQuery.Proofs.Compile.Exact
import FilterQuery.Proofs.Meaning.Selection

/-!
# Compiled queries select by the direct meaning

An attribute that is read in the tuple of a choice has the value that its selector stands for
under the choice.  So a compiled query, executed on a store that conforms to the metadata,
gives each row of the root as often as there are choices with which the filter holds.
-/

namespace FilterQuery

namespace ObjectGraph

variable {graph : ObjectGraph} {query : Query} {choice : Choice}

/-! ## Reading values -/

theorem exists_identifier_of_referenceType_eq_ok {metadata : Metadata} {target : EntityId}
    {type : AttributeType} (h : Selector.referenceType metadata target = .ok type) :
    ∃ name, metadata.identifier target = some name := by
  unfold Selector.referenceType at h
  split at h
  · cases h
  · rename_i name declared
    exact ⟨name, declared⟩

/-- A row stands for the value of the identifier that is declared. -/
theorem Covers.identifierOf_eq (covers : graph.Covers query) {entity : EntityId} {row : RowRef}
    (needed : graph.metadata.NeedsTable query.root entity)
    (row_of : graph.store.RowOf entity row) {name : String}
    (declared : graph.metadata.identifier entity = some name) :
    graph.store.identifierOf row = .ok (graph.identity row) := by
  rcases row_of with ⟨rfl, found⟩
  rcases found.exists_record with ⟨table, record, table_eq, -, record_eq⟩
  rcases covers.conforms _ needed with ⟨table', table_eq', conforms⟩
  obtain rfl : table = table' := Option.some.inj (table_eq.symm.trans table_eq')
  have fields_eq : graph.store.fieldsOf row = record := by
    rw [Store.fieldsOf, record_eq]
    rfl
  simp only [Store.identifierOf, Store.table, table_eq, record_eq, bind, Except.bind, identity,
    declared, fields_eq, conforms.identifier_eq name declared]
  split <;> simp_all

/-- The value at the end of a route to a property, from what the route leads to. -/
theorem value_route_append {context : Context} {owner : EntityId} {record : Record}
    (reached : graph.reach choice (query.route context) = some ⟨owner, record⟩)
    {segments : List String} {kind : PropertyKind}
    (kind_eq : graph.metadata.propertyAt? owner segments = some kind) :
    graph.value choice (query.route context ++ segments) =
      graph.content (choice (query.route context ++ segments)) kind
        (Record.navigate? record segments) := by
  obtain ⟨front, last, inner, rfl, composite, property⟩ :=
    graph.metadata.exists_of_propertyAt?_eq_some kind_eq
  obtain ⟨fields, followed, found⟩ :=
    exists_follow_of_compositeAt? composite record (query.route context)
  rw [value, ← List.append_assoc]
  simp only [List.getLast?_concat, List.dropLast_concat, reach_append, reached, Option.bind_some]
  rw [followed, ← found]
  simp only [property]

/-- The value of a target. -/
def targetValue (graph : ObjectGraph) : Binding → Value
  | .row row => graph.identity row
  | .element value => value
  | .missing => .null

/-- Where a target has been chosen, a property that is joined has the value of the target. -/
theorem content_eq_targetValue {kind : PropertyKind} {target : JoinTarget} {datum : Datum}
    (conforms : datum.Conforms graph.metadata graph.store kind)
    (leads : kind.joinTarget? = some target) {place : Nat} {binding : Binding}
    (chosen : (Store.bindings (some datum))[place]? = some binding) :
    graph.content place kind (some datum) = graph.targetValue binding := by
  cases conforms with
  | value => cases leads
  | embedded => cases leads
  | elements type values =>
      simp only [Store.bindings, List.getElem?_map, Option.map_eq_some_iff] at chosen
      rcases chosen with ⟨value, value_eq, rfl⟩
      simp [content, value_eq, targetValue]
  | @references _ rows _ =>
      simp only [Store.bindings, List.getElem?_map, Option.map_eq_some_iff] at chosen
      rcases chosen with ⟨row, row_eq, rfl⟩
      simp [content, row_eq, targetValue]
  | @reference _ row? _ =>
      cases row? with
      | none => cases chosen
      | some row =>
          obtain rfl := List.mem_singleton.mp (List.mem_of_getElem? chosen)
          rfl

/-- The value at the route of a join is that of the target that is chosen there. -/
theorem Covers.value_route_join (covers : graph.Covers query)
    (permits : graph.Permits choice (query.routesTo query.joins.length)) {i : Nat} {join : Join}
    (join_eq : query.joins[i]? = some join) :
    ∃ target, (graph.tuple choice (query.routesTo query.joins.length)).joined[i]? = some target ∧
      target ≠ .missing ∧ target.Fits graph.store join.target ∧
      graph.value choice (query.route (.join i)) = graph.targetValue target := by
  have inside : i < query.joins.length := (List.getElem?_eq_some_iff.mp join_eq).1
  rcases covers.joined.leads join_eq with ⟨owner, owner_eq, kind, kind_eq, leads⟩
  obtain ⟨above, -, -, above_of, reached⟩ := covers.exists_row permits owner_eq
    fun id parent => Nat.lt_trans (covers.joined.parent_lt join_eq parent) inside
  rcases covers.targets_eq_bindings join_eq owner_eq above_of reached with ⟨targets_eq, targets_fit⟩
  obtain ⟨target, target_mem, chosen⟩ :=
    permits.exists_target (Query.mem_routesTo_iff.mpr ⟨i, inside, rfl⟩)
  rcases targets_fit target target_mem with ⟨present, fits⟩
  refine ⟨target, ?_, present, fits, ?_⟩
  · rw [joined_tuple_routesTo inside, chosen, Option.getD_some]
  · rw [targets_eq] at chosen
    rw [covers.joined.route_join join_eq] at chosen ⊢
    rw [value_route_append reached kind_eq]
    cases found : Record.navigate? (graph.store.fieldsOf above) (Text.segments join.path) with
    | none =>
        rw [found] at chosen
        cases chosen
    | some datum =>
        rw [found] at chosen
        have conforms := covers.fieldsOf_conforms (covers.joined.needsTable owner_eq) above_of
        exact content_eq_targetValue (conforms.navigate? kind_eq found) leads chosen

/-- A property that need not be joined is read with its value. -/
theorem Covers.scalar_eq_content (covers : graph.Covers query) {entity : EntityId}
    {segments : List String} {kind : PropertyKind} {type : AttributeType} {datum? : Option Datum}
    (kind_eq : graph.metadata.propertyAt? entity segments = some kind)
    (leaf : graph.metadata.leafType? kind = some type)
    (conforms : ∀ datum, datum? = some datum → datum.Conforms graph.metadata graph.store kind)
    (path : AttributePath) (place : Nat) :
    graph.store.scalar path datum? = .ok (graph.content place kind datum?) := by
  cases datum? with
  | none => rw [content_none, Store.scalar]
  | some datum =>
      cases conforms datum rfl with
      | value => rfl
      | embedded => rfl
      | references => cases leaf
      | elements => cases leaf
      | @reference target row? found =>
          cases row? with
          | none => rfl
          | some row =>
              obtain ⟨-, last, inner, -, -, property⟩ :=
                graph.metadata.exists_of_propertyAt?_eq_some kind_eq
              obtain ⟨name, declared⟩ :
                  ∃ name, graph.metadata.identifier target = some name := by
                rw [Metadata.leafType?] at leaf
                cases type_eq : Selector.referenceType graph.metadata target with
                | error error => simp [type_eq, Except.toOption] at leaf
                | ok type => exact exists_identifier_of_referenceType_eq_ok type_eq
              exact covers.identifierOf_eq (.inr ⟨inner, last, .single, property⟩) (found row rfl)
                declared

/-- An attribute has the value in the tuple of a choice that its route stands for. -/
theorem Covers.read_eq_value (covers : graph.Covers query)
    (permits : graph.Permits choice (query.routesTo query.joins.length)) {path : AttributePath}
    {type : AttributeType} (located : query.Located graph.metadata path type) :
    graph.store.read path (graph.tuple choice (query.routesTo query.joins.length)) =
      .ok (graph.value choice (query.route path.root ++ path.segments)) := by
  cases located with
  | @field context segments entity kind _ entity_eq kind_eq type_eq =>
      have below (id : JoinId) (context_eq : context = .join id) : id < query.joins.length := by
        rw [context_eq] at entity_eq
        rcases Query.entityOf_join_eq_some_iff.mp entity_eq with ⟨join, join_eq, -⟩
        exact (List.getElem?_eq_some_iff.mp join_eq).1
      rcases covers.exists_row permits entity_eq below with ⟨row, -, binding_eq, row_of, reached⟩
      have conforms := covers.fieldsOf_conforms (covers.joined.needsTable entity_eq) row_of
      have read_eq : graph.store.read ⟨context, segments⟩
          (graph.tuple choice (query.routesTo query.joins.length)) =
            graph.store.scalar ⟨context, segments⟩
              (Record.navigate? (graph.store.fieldsOf row) segments) := by
        cases segments with
        | nil => cases kind_eq
        | cons segment rest =>
            simp [Store.read, binding_eq, record_eq_fieldsOf row_of.2, bind, Except.bind]
      rw [read_eq, value_route_append reached kind_eq]
      exact covers.scalar_eq_content kind_eq type_eq (fun _ => conforms.navigate? kind_eq) _ _
  | @whole id target _ entity_eq type_eq =>
      rcases Query.entityOf_join_eq_some_iff.mp entity_eq with ⟨join, join_eq, target_eq⟩
      rcases covers.value_route_join permits join_eq with ⟨found, found_eq, present, fits, value_eq⟩
      rw [target_eq] at fits
      rcases exists_identifier_of_referenceType_eq_ok type_eq with ⟨name, declared⟩
      rw [List.append_nil, value_eq]
      cases found with
      | row row =>
          have identifier_eq := covers.identifierOf_eq (covers.joined.needsTable entity_eq) fits
            declared
          simp [Store.read, Store.binding, found_eq, identifier_eq, targetValue, bind, Except.bind]
      | missing => exact absurd rfl present
      | element value => cases fits
  | @element id join _ join_eq target_eq =>
      rcases covers.value_route_join permits join_eq with ⟨found, found_eq, present, fits, value_eq⟩
      rw [target_eq] at fits
      rw [List.append_nil, value_eq]
      cases found with
      | row row => cases fits
      | missing => exact absurd rfl present
      | element value => simp [Store.read, Store.binding, found_eq, targetValue, bind, Except.bind]

/-! ## Evaluating -/

/-- A condition holds in the tuple of a choice if the value at the route of its attribute is what
its operator asks for. -/
theorem Covers.holds_condition (covers : graph.Covers query)
    (permits : graph.Permits choice (query.routesTo query.joins.length)) {literals : Literals}
    {operator : ComparisonOperator} {symbol : String} {target : Attribute}
    {arguments : List String} {leaf : Predicate}
    (located : query.Located graph.metadata target.path target.type)
    (condition_eq : literals.condition operator symbol target arguments = .ok leaf) :
    graph.store.holds (graph.tuple choice (query.routesTo query.joins.length)) leaf =
      .ok (literals.accepts operator target.type arguments
        (graph.value choice (query.route target.path.root ++ target.path.segments))) := by
  rw [Store.holds_of_test? (Literals.test?_of_condition_eq_ok condition_eq),
    covers.read_eq_value permits located]
  rfl

/-- The leaf of a comparison holds in the tuple of a choice if the comparison does. -/
theorem Covers.holds_eq_accepts (covers : graph.Covers query)
    (permits : graph.Permits choice (query.routesTo query.joins.length)) {scope : Scope}
    (metadata_eq : scope.metadata = graph.metadata)
    (origin_eq : scope.origin.entity = graph.root.entity) {node : Comparison} {leaf : Predicate}
    (spelled : scope.Spelled query node leaf) :
    graph.store.holds (graph.tuple choice (query.routesTo query.joins.length)) leaf =
      .ok (graph.accepts choice scope.literals node) := by
  rcases spelled.condition with
    ⟨operator, target, meaning, located, route_eq, type_eq, condition_eq⟩
  rw [metadata_eq] at located type_eq
  rw [origin_eq] at type_eq
  rw [covers.holds_condition permits located condition_eq, route_eq, accepts]
  simp only [meaning, type_eq]

end ObjectGraph

/-! ## Compiled queries -/

namespace QueryCompiler

open ObjectGraph

variable {compiler : QueryCompiler} {store : Store} {filter : Filter} {query : Query} {row : Nat}

/-- How a compiler reads the arguments of comparisons. -/
def literals (compiler : QueryCompiler) : Literals where
  nullToken := compiler.configuration.options.nullToken
  parser := compiler.configuration.tools.parser

/-- What can be reached from a row of the root. -/
def graph (compiler : QueryCompiler) (store : Store) (row : Nat) : ObjectGraph where
  metadata := compiler.metadata
  store := store
  root := ⟨compiler.root, row⟩

theorem Renders.covers (renders : compiler.Renders filter query)
    (conforms : store.Conforms compiler.metadata compiler.root)
    (found : store.HasRow ⟨compiler.root, row⟩) : (compiler.graph store row).Covers query := by
  constructor
  · exact renders.joined
  · rw [renders.root_eq]
    exact conforms
  · rw [renders.root_eq]
    exact ⟨rfl, found⟩
  · exact renders.inner

/-- The tuple of a choice passes the filter of a query if the filter that was compiled holds. -/
theorem Renders.passes_eq (renders : compiler.Renders filter query)
    (covers : (compiler.graph store row).Covers query) {choice : Choice}
    (permits : (compiler.graph store row).Permits choice (query.routesTo query.joins.length)) :
    store.passes query.filter
        ((compiler.graph store row).tuple choice (query.routesTo query.joins.length)) =
      .ok (filter.evaluate ((compiler.graph store row).accepts choice compiler.literals)) := by
  rcases renders.mirrored with ⟨predicate, filter_eq, mirrors⟩
  rw [filter_eq]
  apply mirrors.holds_eq_evaluate
  intro node leaf spelled
  obtain ⟨path, _, test, -, test_eq⟩ := spelled.conditions.exists_test?
  exact ⟨⟨path, test, test_eq⟩, covers.holds_eq_accepts permits rfl rfl spelled⟩

/-- A query that renders a filter is answered with the rows of the root, each of them as often as
there are ways in which the filter holds. -/
theorem Renders.select_eq (renders : compiler.Renders filter query)
    (conforms : store.Conforms compiler.metadata compiler.root) {table : Table}
    (table_eq : store.get? compiler.root = some table) :
    store.select { query with distinct := false } =
      .ok ((List.range table.rows.length).flatMap fun row =>
        List.replicate ((compiler.graph store row).ways compiler.literals filter)
          ⟨compiler.root, row⟩) := by
  apply conforms.select_eq_flatMap renders.root_eq renders.joined renders.inner table_eq
    renders.paths
  intro row inside choice permits
  exact renders.passes_eq (renders.covers conforms ⟨table, table_eq, inside⟩) permits

/-- A query that is compiled without aliases is answered with the rows of its root, in the order
of their table, each of them as often as there are ways to choose targets at the paths that the
filter joins such that the filter holds. -/
theorem select_eq_of_compile
    (noAliases : compiler.configuration.tools.mapper = AliasTable.empty.map)
    (builtIn : compiler.configuration.tools.strategy = none)
    (compiled : compiler.compile filter = .ok query)
    (conforms : store.Conforms compiler.metadata compiler.root) :
    ∃ table, store.get? compiler.root = some table ∧
      (∀ row < table.rows.length,
        ((compiler.graph store row).matching compiler.literals filter).Finite) ∧
      store.select { query with distinct := false } =
        .ok ((List.range table.rows.length).flatMap fun row =>
          List.replicate ((compiler.graph store row).ways compiler.literals filter)
            ⟨compiler.root, row⟩) := by
  have renders := renders_of_compile_eq_ok noAliases builtIn compiled
  rcases conforms compiler.root (.inl rfl) with ⟨table, table_eq, -⟩
  refine ⟨table, table_eq, ?_, renders.select_eq conforms table_eq⟩
  intro row inside
  have covers := renders.covers conforms ⟨table, table_eq, inside⟩
  exact covers.finite_passing renders.paths _

/-- The first department is selected for each of the two skills of its first employee; the second
employee has a chief but no skill, so there is no choice for it. -/
theorem select_eq_of_compile_company :
    let compiler := QueryCompiler.select company.metadata ⟨1⟩
    let filter : Filter :=
      .group .or [.comparison ⟨"members.skills", "=in=", ["lean", "go"]⟩,
        .comparison ⟨"members.chief", "==", ["1"]⟩]
    ∃ query, compiler.compile filter = .ok query ∧
      companyStore.select { query with distinct := false } = .ok [⟨⟨1⟩, 0⟩, ⟨⟨1⟩, 0⟩] ∧
      (compiler.graph companyStore 0).ways compiler.literals filter = 2 ∧
      (compiler.graph companyStore 1).ways compiler.literals filter = 0 := by
  intro compiler filter
  have answer : (compiler.compile filter).toOption.map
      (fun query => companyStore.select { query with distinct := false }) =
        some (.ok [⟨⟨1⟩, 0⟩, ⟨⟨1⟩, 0⟩]) := by decide +kernel
  cases compiled : compiler.compile filter with
  | error stop =>
      rw [compiled] at answer
      cases answer
  | ok query =>
      rw [compiled] at answer
      have rows_eq : companyStore.select { query with distinct := false } =
          .ok [⟨⟨1⟩, 0⟩, ⟨⟨1⟩, 0⟩] := Option.some.inj answer
      obtain ⟨table, table_eq, -, selected⟩ :=
        select_eq_of_compile rfl rfl compiled companyStore_conforms
      have two : table.rows.length = 2 := by
        cases table_eq
        rfl
      rw [rows_eq, two] at selected
      have rows : [⟨⟨1⟩, 0⟩, ⟨⟨1⟩, 0⟩] =
          List.replicate ((compiler.graph companyStore 0).ways compiler.literals filter)
              (⟨⟨1⟩, 0⟩ : RowRef) ++
            List.replicate ((compiler.graph companyStore 1).ways compiler.literals filter)
              ⟨⟨1⟩, 1⟩ :=
        (Except.ok.inj selected).trans (congrArg (_ ++ ·) (List.append_nil _))
      refine ⟨query, rfl, rows_eq, ?_, ?_⟩
      · simpa [List.count_replicate] using (congrArg (List.count ⟨⟨1⟩, 0⟩) rows).symm
      · simpa [List.count_replicate] using (congrArg (List.count ⟨⟨1⟩, 1⟩) rows).symm

end QueryCompiler

end FilterQuery
