import FilterQuery.Proofs.Compile.Comparisons
import FilterQuery.Proofs.Compile.Conditions
import FilterQuery.Proofs.Store.Conformity
import Mathlib.Data.List.Induction

/-!
# Compiled queries do not go wrong

A compile decides from metadata alone which steps of a selector become joins and which stay
composites, and an execution takes the same steps on data.  On a store that conforms to the
metadata every join finds its parents and every leaf its value, so that the execution of a
compiled query succeeds.
-/

namespace FilterQuery

variable {metadata : Metadata} {store : Store} {query : Query}

/-! ## What joins find -/

/-- A binding that is what a join leads to, or nothing. -/
def Binding.Fits (store : Store) : JoinTarget → Binding → Prop
  | .entity entity, .row found => store.RowOf entity found
  | .elements _, .element _ => True
  | _, .missing => True
  | _, _ => False

/-- A tuple with bindings for some joins. -/
structure Tuple.Fits (store : Store) (root : EntityId) (joins : List Join) (tuple : Tuple) :
    Prop where
  root : store.RowOf root tuple.root
  joined : List.Forall₂ (fun join binding => Binding.Fits store join.target binding) joins
    tuple.joined

theorem Tuple.Fits.exists_getElem? {root : EntityId} {joins : List Join} {tuple : Tuple}
    (fits : tuple.Fits store root joins) {i : Nat} {join : Join} (h : joins[i]? = some join) :
    ∃ binding, tuple.joined[i]? = some binding ∧ binding.Fits store join.target := by
  rcases List.getElem?_eq_some_iff.mp h with ⟨inside, rfl⟩
  have inside' : i < tuple.joined.length := fits.joined.length_eq ▸ inside
  exact ⟨tuple.joined[i], List.getElem?_eq_getElem inside', fits.joined.get inside inside'⟩

theorem Store.missing_not_mem_bindings (datum? : Option Datum) :
    .missing ∉ Store.bindings datum? := by
  unfold Store.bindings
  split <;> simp

/-- The contents of a property that can be joined fit the join. -/
theorem Datum.Conforms.bindings_fit {kind : PropertyKind} {target : JoinTarget} {datum : Datum}
    (conforms : datum.Conforms metadata store kind) (leads : kind.joinTarget? = some target) :
    ∀ binding ∈ Store.bindings (some datum), binding.Fits store target := by
  intro binding member
  cases conforms with
  | value => cases leads
  | embedded => cases leads
  | elements =>
      cases leads
      rcases List.mem_map.mp member with ⟨value, -, rfl⟩
      trivial
  | references found =>
      cases leads
      rcases List.mem_map.mp member with ⟨row, row_mem, rfl⟩
      exact found row row_mem
  | @reference _ row? found =>
      cases leads
      cases row? with
      | none => cases member
      | some row =>
          obtain rfl := List.mem_singleton.mp member
          exact found row rfl

/-- Queries need tables of all entities that their contexts range over. -/
theorem Query.Joined.needsTable (joined : query.Joined metadata) {context : Context}
    {entity : EntityId} (h : query.entityOf context = some entity) :
    metadata.NeedsTable query.root entity := by
  cases context with
  | root => exact .inl (Option.some.inj h).symm
  | join id =>
      rcases Query.entityOf_join_eq_some_iff.mp h with ⟨join, join_eq, target_eq⟩
      rcases joined.leads join_eq with ⟨owner, -, kind, kind_eq, leads⟩
      rcases metadata.exists_of_propertyAt?_eq_some kind_eq with ⟨-, last, inner, -, -, property⟩
      rw [target_eq] at leads
      cases kind with
      | association target cardinality =>
          cases leads
          exact .inr ⟨inner, last, cardinality, property⟩
      | _ => cases leads

/-- The row that a join starts from, if any, is one of the entity of its parent. -/
theorem Tuple.Fits.exists_parentRow {joins rest : List Join} {tuple : Tuple}
    (fits : tuple.Fits store query.root joins) (joins_eq : query.joins = joins ++ rest)
    {context : Context} {entity : EntityId} (entity_eq : query.entityOf context = some entity)
    (above : ∀ id, context = .join id → id < joins.length) :
    ∃ row?, Store.parentRow tuple context = .ok row? ∧
      ∀ row, row? = some row → store.RowOf entity row := by
  cases context with
  | root =>
      refine ⟨some tuple.root, rfl, ?_⟩
      rintro row ⟨⟩
      obtain rfl : query.root = entity := Option.some.inj entity_eq
      exact fits.root
  | join id =>
      rcases Query.entityOf_join_eq_some_iff.mp entity_eq with ⟨join, join_eq, target_eq⟩
      rw [joins_eq, List.getElem?_append_left (above id rfl)] at join_eq
      rcases fits.exists_getElem? join_eq with ⟨binding, binding_eq, binding_fits⟩
      rw [target_eq] at binding_fits
      cases binding with
      | row row =>
          refine ⟨some row, by simp [Store.parentRow, binding_eq], ?_⟩
          rintro _ ⟨⟩
          exact binding_fits
      | missing => exact ⟨none, by simp [Store.parentRow, binding_eq], by simp⟩
      | element value => cases binding_fits

/-- A join finds its targets in every tuple for the joins in front of it. -/
theorem Tuple.Fits.exists_targets (conforms : store.Conforms metadata query.root)
    (joined : query.Joined metadata) {joins rest : List Join} {join : Join} {tuple : Tuple}
    (fits : tuple.Fits store query.root joins) (joins_eq : query.joins = joins ++ join :: rest) :
    ∃ targets, store.targets join tuple = .ok targets ∧
      ∀ binding ∈ targets, binding.Fits store join.target := by
  have join_eq : query.joins[joins.length]? = some join := by simp [joins_eq]
  rcases joined.leads join_eq with ⟨owner, owner_eq, kind, kind_eq, leads⟩
  obtain ⟨row?, parent_eq, row_of⟩ := fits.exists_parentRow joins_eq owner_eq
    fun id parent_eq => joined.parent_lt join_eq parent_eq
  obtain ⟨targets, targets_eq, targets_fit⟩ :
      ∃ targets, store.targetsOf join.path row? = .ok targets ∧
      ∀ binding ∈ targets, binding.Fits store join.target := by
    cases row? with
    | none => exact ⟨[], rfl, fun _ member => nomatch member⟩
    | some row =>
        obtain ⟨record, record_eq, record_conforms⟩ :=
          conforms.exists_record (joined.needsTable owner_eq) (row_of row rfl)
        refine ⟨Store.bindings (record.navigate? (Text.segments join.path)), ?_, ?_⟩
        · simp [Store.targetsOf, record_eq, bind, Except.bind]
        · cases found : record.navigate? (Text.segments join.path) with
          | none => exact fun _ member => nomatch member
          | some datum => exact (record_conforms.navigate? kind_eq found).bindings_fit leads
  refine ⟨if targets = [] ∧ join.kind = .left then [.missing] else targets, ?_, ?_⟩
  · simp [Store.targets, parent_eq, targets_eq, bind, Except.bind]
  · split
    · intro binding member
      obtain rfl := List.mem_singleton.mp member
      cases join.target <;> trivial
    · exact targets_fit

/-! ## Expansion -/

/-- The tuples that a join makes, where it makes some of each tuple. -/
theorem Store.extendAll_eq_flatMap {join : Join} {tuples : List Tuple}
    {extended : Tuple → List Tuple}
    (h : ∀ tuple ∈ tuples, store.extend join tuple = .ok (extended tuple)) :
    store.extendAll tuples join = .ok (tuples.flatMap extended) := by
  rw [extendAll_eq_forEach]
  exact forEach_eq_ok_iff.mpr ⟨extended, h, rfl⟩

/-- A join extends every tuple for the joins in front of it. -/
theorem Tuple.Fits.exists_extend (conforms : store.Conforms metadata query.root)
    (joined : query.Joined metadata) {joins rest : List Join} {join : Join} {tuple : Tuple}
    (fits : tuple.Fits store query.root joins) (joins_eq : query.joins = joins ++ join :: rest) :
    ∃ extended, store.extend join tuple = .ok extended ∧
      ∀ next ∈ extended, next.Fits store query.root (joins ++ [join]) := by
  rcases fits.exists_targets conforms joined joins_eq with ⟨targets, targets_eq, targets_fit⟩
  refine ⟨targets.map fun target => { tuple with joined := tuple.joined ++ [target] }, ?_, ?_⟩
  · simp [Store.extend, targets_eq, bind, Except.bind]
  · intro next member
    rcases List.mem_map.mp member with ⟨target, target_mem, rfl⟩
    exact ⟨fits.root, List.rel_append fits.joined (.cons (targets_fit target target_mem) .nil)⟩

theorem Store.rootTuples_eq {root : EntityId} {table : Table}
    (table_eq : store.get? root = some table) :
    store.rootTuples root =
      .ok ((List.range table.rows.length).map fun row => { root := ⟨root, row⟩ }) := by
  simp [rootTuples, Store.table, table_eq, bind, Except.bind]

/-- The rows of the root are there. -/
theorem Store.Conforms.exists_rootTuples {root : EntityId}
    (conforms : store.Conforms metadata root) :
    ∃ tuples, store.rootTuples root = .ok tuples ∧ ∀ tuple ∈ tuples, tuple.Fits store root [] := by
  rcases conforms root (.inl rfl) with ⟨table, table_eq, -⟩
  refine ⟨_, rootTuples_eq table_eq, ?_⟩
  intro tuple member
  rcases List.mem_map.mp member with ⟨row, inside, rfl⟩
  exact ⟨⟨rfl, table, table_eq, List.mem_range.mp inside⟩, .nil⟩

/-- The expansion of a joined query succeeds, with a binding for each join in every tuple. -/
theorem Store.Conforms.exists_expand (conforms : store.Conforms metadata query.root)
    (joined : query.Joined metadata) :
    ∃ tuples, store.expand query = .ok tuples ∧
      ∀ tuple ∈ tuples, tuple.Fits store query.root query.joins := by
  rcases conforms.exists_rootTuples with ⟨roots, roots_eq, roots_fit⟩
  suffices expanded : ∀ joins rest, query.joins = joins ++ rest →
      ∃ tuples, joins.foldlM store.extendAll roots = .ok tuples ∧
        ∀ tuple ∈ tuples, tuple.Fits store query.root joins by
    rcases expanded query.joins [] (List.append_nil _).symm with ⟨tuples, tuples_eq, tuples_fit⟩
    exact ⟨tuples, by simp [expand, roots_eq, tuples_eq, bind, Except.bind], tuples_fit⟩
  intro joins
  induction joins using List.reverseRecOn with
  | nil => exact fun rest _ => ⟨roots, rfl, roots_fit⟩
  | append_singleton joins join ih =>
      intro rest joins_eq
      rw [List.append_assoc, List.singleton_append] at joins_eq
      rcases ih (join :: rest) joins_eq with ⟨tuples, tuples_eq, tuples_fit⟩
      obtain ⟨nexts, nexts_eq, nexts_fit⟩ := exists_forEach fun tuple member =>
        (tuples_fit tuple member).exists_extend conforms joined joins_eq
      refine ⟨nexts, ?_, nexts_fit⟩
      rw [List.foldlM_append, tuples_eq]
      change store.extendAll tuples join >>= pure = _
      rw [extendAll_eq_forEach, nexts_eq]
      rfl

/-! ## Evaluation -/

/-- What a path starts from is a row of the entity of its context, or nothing. -/
theorem Tuple.Fits.exists_binding {tuple : Tuple} (fits : tuple.Fits store query.root query.joins)
    {context : Context} {entity : EntityId} (entity_eq : query.entityOf context = some entity) :
    Store.binding tuple context = .ok .missing ∨
      ∃ row, Store.binding tuple context = .ok (.row row) ∧ store.RowOf entity row := by
  cases context with
  | root =>
      obtain rfl : query.root = entity := Option.some.inj entity_eq
      exact .inr ⟨tuple.root, rfl, fits.root⟩
  | join id =>
      rcases Query.entityOf_join_eq_some_iff.mp entity_eq with ⟨join, join_eq, target_eq⟩
      rcases fits.exists_getElem? join_eq with ⟨binding, binding_eq, binding_fits⟩
      rw [target_eq] at binding_fits
      cases binding with
      | row row => exact .inr ⟨row, by simp [Store.binding, binding_eq], binding_fits⟩
      | missing => exact .inl (by simp [Store.binding, binding_eq])
      | element value => cases binding_fits

/-- A property that need not be joined holds one value. -/
theorem Datum.Conforms.exists_scalar {kind : PropertyKind} {type : AttributeType} {datum : Datum}
    (conforms : datum.Conforms metadata store kind) (leaf : metadata.leafType? kind = some type)
    (path : AttributePath) : ∃ value, store.scalar path (some datum) = .ok value := by
  cases conforms with
  | value _ value => exact ⟨value, rfl⟩
  | embedded => exact ⟨.null, rfl⟩
  | references => cases leaf
  | elements => cases leaf
  | @reference _ row? found =>
      cases row? with
      | none => exact ⟨.null, rfl⟩
      | some row => exact (found row rfl).2.exists_identifierOf

/-- The attributes of a query can be read in every tuple. -/
theorem Query.Located.exists_read {path : AttributePath} {type : AttributeType}
    (located : query.Located metadata path type) (conforms : store.Conforms metadata query.root)
    (joined : query.Joined metadata) {tuple : Tuple}
    (fits : tuple.Fits store query.root query.joins) :
    ∃ value, store.read path tuple = .ok value := by
  cases located with
  | @field context segments entity kind type entity_eq kind_eq type_eq =>
      rcases fits.exists_binding entity_eq with absent | ⟨row, row_eq, row_of⟩
      · exact ⟨.null, by simp [Store.read, absent, bind, Except.bind]⟩
      · obtain ⟨record, record_eq, record_conforms⟩ :=
          conforms.exists_record (joined.needsTable entity_eq) row_of
        have reads : store.read ⟨context, segments⟩ tuple =
            store.scalar ⟨context, segments⟩ (record.navigate? segments) := by
          cases segments with
          | nil => cases kind_eq
          | cons segment rest => simp [Store.read, row_eq, record_eq, bind, Except.bind]
        rw [reads]
        cases found : record.navigate? segments with
        | none => exact ⟨.null, rfl⟩
        | some datum => exact (record_conforms.navigate? kind_eq found).exists_scalar type_eq _
  | @whole id target type entity_eq type_eq =>
      rcases fits.exists_binding entity_eq with absent | ⟨row, row_eq, row_of⟩
      · exact ⟨.null, by simp [Store.read, absent, bind, Except.bind]⟩
      · rcases row_of.2.exists_identifierOf with ⟨value, value_eq⟩
        exact ⟨value, by simp [Store.read, row_eq, value_eq, bind, Except.bind]⟩
  | @element id join type join_eq target_eq =>
      rcases fits.exists_getElem? join_eq with ⟨binding, binding_eq, binding_fits⟩
      rw [target_eq] at binding_fits
      cases binding with
      | row row => cases binding_fits
      | missing => exact ⟨.null, by simp [Store.read, Store.binding, binding_eq, bind, Except.bind]⟩
      | element value =>
          exact ⟨value, by simp [Store.read, Store.binding, binding_eq, bind, Except.bind]⟩

/-- A query whose leaves are conditions on its attributes is answered. -/
theorem Store.Conforms.exists_select (conforms : store.Conforms metadata query.root)
    (joined : query.Joined metadata)
    (located : ∀ predicate ∈ query.filter, ∀ leaf ∈ predicate.leaves,
      ∃ path type test, query.Located metadata path type ∧ leaf.test? = some (path, test)) :
    ∃ rows, store.select query = .ok rows := by
  rcases conforms.exists_expand joined with ⟨tuples, tuples_eq, tuples_fit⟩
  have passes (tuple : Tuple) (member : tuple ∈ tuples) :
      ∃ passed, store.passes query.filter tuple = .ok passed := by
    cases filter_eq : query.filter with
    | none => exact ⟨true, rfl⟩
    | some predicate =>
        let decide (leaf : Predicate) := (store.holds tuple leaf).toOption.getD false
        have reads : ∀ leaf ∈ predicate.leaves, store.holds tuple leaf = .ok (decide leaf) := by
          intro leaf leaf_mem
          obtain ⟨path, type, test, path_located, test_eq⟩ :=
            located predicate filter_eq leaf leaf_mem
          obtain ⟨value, value_eq⟩ :=
            path_located.exists_read conforms joined (tuples_fit tuple member)
          simp only [decide, Store.holds_of_test? test_eq, value_eq]
          rfl
        exact ⟨_, Store.holds_eq_evaluate predicate reads⟩
  have decided (tuple : Tuple) (member : tuple ∈ tuples) :
      store.passes query.filter tuple =
        .ok ((store.passes query.filter tuple).toOption.getD false) := by
    rcases passes tuple member with ⟨passed, passed_eq⟩
    rw [passed_eq]
    rfl
  exact ⟨_, select_eq tuples_eq decided⟩

/-! ## Compiled queries -/

/-- The queries that joins ahead of a compile make of fresh ones. -/
inductive Query.Established (metadata : Metadata) : Query → Prop
  | select (root : EntityId) : Established metadata (.select root)
  | count (root : EntityId) : Established metadata (.count root)
  | join {query next : Query} {parent : Context} {association : String} {kind : JoinKind}
      {label : Option String} {id : JoinId} (established : Established metadata query)
      (made : query.join metadata parent association kind label = .ok (id, next)) :
      Established metadata next

theorem Query.Established.joined (established : query.Established metadata) :
    query.Joined metadata := by
  induction established with
  | select root => exact joined_of_joins_eq_nil rfl rfl
  | count root => exact joined_of_joins_eq_nil rfl rfl
  | join _ made joined => exact joined.join made

/-- A condition asks something of the value of an attribute that its query has. -/
theorem Scope.Conditions.exists_test? {scope : Scope} {node : Comparison} {predicate : Predicate}
    (conditions : scope.Conditions query node predicate) :
    ∃ path type test, query.Located scope.metadata path type ∧
      predicate.test? = some (path, test) := by
  rcases conditions with ⟨operator, target, located, condition_eq⟩
  exact ⟨target.path, target.type, _, located, Literals.test?_of_condition_eq_ok condition_eq⟩

theorem Scope.Conditions.leaves {scope : Scope} {node : Comparison} {predicate : Predicate}
    (conditions : scope.Conditions query node predicate) : predicate.leaves = [predicate] := by
  rcases conditions.exists_test? with ⟨_, _, _, -, test_eq⟩
  exact Predicate.leaves_of_test? test_eq

/-- A query that is compiled from joins made ahead is answered by every store that conforms to
its metadata: no table, row or join is missing, and no path ends at a collection. -/
theorem execute_ok_of_compileInto {compiler : QueryCompiler} {start : Query} {filter : Filter}
    (established : start.Established compiler.metadata)
    (builtIn : compiler.configuration.tools.strategy = none)
    (compiled : compiler.compileInto start filter = .ok query)
    (conforms : store.Conforms compiler.metadata start.root) :
    (∃ answer, store.execute query = .ok answer) ∧ (∃ rows, store.select query = .ok rows) ∧
      ∃ number, store.count query = .ok number := by
  have joined := compiler.joined_of_compileInto_eq_ok established.joined builtIn compiled
  obtain ⟨predicate, filter_eq, mirrors⟩ :=
    compiler.mirrors_of_compileInto_eq_ok established.joined builtIn compiled
  rw [← compiler.root_of_compileInto_eq_ok established.joined builtIn compiled] at conforms
  obtain ⟨rows, rows_eq⟩ : ∃ rows, store.select query = .ok rows := by
    apply conforms.exists_select joined
    intro predicate' filter_eq' leaf member
    obtain rfl : predicate = predicate' := Option.some.inj (filter_eq.symm.trans filter_eq')
    obtain ⟨node, -, conditions⟩ :=
      mirrors.exists_of_mem_leaves (fun _ _ conditions => conditions.leaves) member
    exact conditions.exists_test?
  have count_eq : store.count query = .ok rows.length := by
    simp [Store.count, rows_eq, bind, Except.bind]
  refine ⟨?_, ⟨rows, rows_eq⟩, rows.length, count_eq⟩
  rw [Store.execute]
  cases query.projection with
  | entities => exact ⟨.entities rows, by rw [rows_eq]; rfl⟩
  | count => exact ⟨.count rows.length, by rw [count_eq]; rfl⟩

theorem execute_ok_of_compileInto_company :
    ∃ start query answer, start.Established company.metadata ∧
      (QueryCompiler.select company.metadata ⟨1⟩).compileInto start
        (.group .or [.comparison ⟨"m.skills", "==", ["lean"]⟩,
          .comparison ⟨"members.chief.id", "=gt=", ["0"]⟩]) = .ok query ∧
      companyStore.execute query = .ok answer := by
  let start : Query :=
    { root := ⟨1⟩
      projection := .count
      joins := [{ id := 0, parent := .root, path := "members", target := .entity ⟨2⟩,
                  kind := .left, label := some "m" }]
      index := [((.root, "members"), 0)] }
  have made : (Query.count ⟨1⟩).join company.metadata .root "members" .left (some "m") =
      .ok (0, start) := rfl
  have established : start.Established company.metadata := (Query.Established.count ⟨1⟩).join made
  let filter : Filter :=
    .group .or [.comparison ⟨"m.skills", "==", ["lean"]⟩,
      .comparison ⟨"members.chief.id", "=gt=", ["0"]⟩]
  have succeeds :
      ((QueryCompiler.select company.metadata ⟨1⟩).compileInto start filter).isOk = true := by
    decide +kernel
  cases compiled : (QueryCompiler.select company.metadata ⟨1⟩).compileInto start filter with
  | error stop => simp [compiled, Except.isOk, Except.toBool] at succeeds
  | ok query =>
      obtain ⟨⟨answer, answer_eq⟩, -⟩ := execute_ok_of_compileInto established rfl compiled
        companyStore_conforms
      exact ⟨start, query, answer, established, compiled, answer_eq⟩

end FilterQuery
