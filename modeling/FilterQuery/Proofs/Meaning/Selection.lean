import FilterQuery.Proofs.Meaning.Expansion
import Mathlib.Data.Set.Card

/-!
# Selecting by choices

Where the filter of a query can be decided in the tuple of each choice, an execution gives each
row of the root as often as there are choices, at the paths of the joins, that pass.  Neither the
numbers of the joins nor their order bears on that: two queries that join the same paths and let
the same choices pass select the same rows.
-/

namespace FilterQuery

namespace ObjectGraph

variable {graph : ObjectGraph} {query : Query} {choice : Choice} {paths : List (List String)}

theorem permits_congr {others : List (List String)}
    (same : ∀ path, path ∈ paths ↔ path ∈ others) :
    graph.Permits choice paths ↔ graph.Permits choice others := by
  constructor
  · intro permits
    exact ⟨fun path absent => permits.eq_zero path (mt (same path).mp absent),
      fun path member => permits.lt_length path ((same path).mpr member)⟩
  · intro permits
    exact ⟨fun path absent => permits.eq_zero path (mt (same path).mpr absent),
      fun path member => permits.lt_length path ((same path).mp member)⟩

/-- The choices at the paths of the joins are those that are listed. -/
theorem Covers.mem_choices_iff_permits (covers : graph.Covers query)
    (same : ∀ path, path ∈ routesOf query.joins ↔ path ∈ paths) :
    choice ∈ graph.choices (query.routesTo query.joins.length) ↔ graph.Permits choice paths := by
  rw [mem_choices_iff covers.joined covers.root_eq le_rfl]
  exact permits_congr fun path => Query.mem_routesTo_length_iff.trans (same path)

theorem Covers.finite_passing (covers : graph.Covers query)
    (same : ∀ path, path ∈ routesOf query.joins ↔ path ∈ paths) (passes : Choice → Bool) :
    {choice | graph.Permits choice paths ∧ passes choice}.Finite :=
  (List.finite_toSet (graph.choices (query.routesTo query.joins.length))).subset
    fun _ passing => (covers.mem_choices_iff_permits same).mpr passing.1

/-- The listed choices that pass are as many as there are choices that pass. -/
theorem Covers.length_filter_choices (covers : graph.Covers query)
    (same : ∀ path, path ∈ routesOf query.joins ↔ path ∈ paths) (passes : Choice → Bool) :
    ((graph.choices (query.routesTo query.joins.length)).filter passes).length =
      {choice | graph.Permits choice paths ∧ passes choice}.ncard := by
  classical
  let listed := (graph.choices (query.routesTo query.joins.length)).filter passes
  have distinct : listed.Nodup :=
    (nodup_choices covers.joined covers.root_eq le_rfl).filter _
  have passing_eq : {choice | graph.Permits choice paths ∧ passes choice} =
      (listed.toFinset : Set Choice) := by
    ext choice
    rw [Finset.mem_coe, List.mem_toFinset, List.mem_filter, covers.mem_choices_iff_permits same]
    rfl
  rw [passing_eq, Set.ncard_coe_finset, List.toFinset_card_of_nodup distinct]

/-- The tuples of a row that pass are as many as there are choices that pass. -/
theorem Covers.roots_eq_replicate (covers : graph.Covers query)
    (same : ∀ path, path ∈ routesOf query.joins ↔ path ∈ paths) {passes : Choice → Bool}
    {passed : Tuple → Bool}
    (passed_eq : ∀ choice ∈ graph.choices (query.routesTo query.joins.length),
      passed (graph.tuple choice (query.routesTo query.joins.length)) = passes choice) :
    ((graph.tuples query query.joins.length).filter passed).map (·.root) =
      List.replicate {choice | graph.Permits choice paths ∧ passes choice}.ncard graph.root := by
  rw [tuples, List.filter_map, List.map_map, ← covers.length_filter_choices same]
  have filter_eq : (graph.choices (query.routesTo query.joins.length)).filter
      (passed ∘ (graph.tuple · (query.routesTo query.joins.length))) =
        (graph.choices (query.routesTo query.joins.length)).filter passes :=
    List.filter_congr passed_eq
  rw [filter_eq]
  exact List.map_const' ..

end ObjectGraph

namespace Store

open ObjectGraph

variable {metadata : Metadata} {store : Store} {query : Query}

/-- A query with plain joins is answered with the rows of its root, in the order of their table,
each of them as often as there are choices at the paths of its joins that pass its filter. -/
theorem Conforms.select_eq_flatMap {root : EntityId} (conforms : store.Conforms metadata root)
    (root_eq : query.root = root) (joined : query.Joined metadata)
    (inner : ∀ join ∈ query.joins, join.kind = .inner)
    {table : Table} (table_eq : store.get? root = some table) {paths : List (List String)}
    (same : ∀ path, path ∈ routesOf query.joins ↔ path ∈ paths) {passes : Nat → Choice → Bool}
    (decides : ∀ row < table.rows.length, ∀ choice,
      (⟨metadata, store, ⟨root, row⟩⟩ : ObjectGraph).Permits choice
        (query.routesTo query.joins.length) →
          store.passes query.filter (tuple ⟨metadata, store, ⟨root, row⟩⟩ choice
            (query.routesTo query.joins.length)) = .ok (passes row choice)) :
    store.select { query with distinct := false } =
      .ok ((List.range table.rows.length).flatMap fun row =>
        List.replicate {choice | (⟨metadata, store, ⟨root, row⟩⟩ : ObjectGraph).Permits
          choice paths ∧ passes row choice}.ncard ⟨root, row⟩) := by
  subst root_eq
  have covers (row : Nat) (row_mem : row ∈ List.range table.rows.length) :
      (⟨metadata, store, ⟨query.root, row⟩⟩ : ObjectGraph).Covers query :=
    ⟨joined, conforms, ⟨rfl, table, table_eq, List.mem_range.mp row_mem⟩, inner⟩
  have decides_listed (row : Nat) (row_mem : row ∈ List.range table.rows.length)
      (choice : Choice) (listed : choice ∈ choices ⟨metadata, store, ⟨query.root, row⟩⟩
        (query.routesTo query.joins.length)) :
      store.passes query.filter (tuple ⟨metadata, store, ⟨query.root, row⟩⟩ choice
        (query.routesTo query.joins.length)) = .ok (passes row choice) :=
    decides row (List.mem_range.mp row_mem) choice
      ((mem_choices_iff joined (covers row row_mem).root_eq le_rfl).mp listed)
  let passed (tuple : Tuple) := (store.passes query.filter tuple).toOption.getD false
  have decided : ∀ tuple ∈ (List.range table.rows.length).flatMap fun row =>
      tuples ⟨metadata, store, ⟨query.root, row⟩⟩ query query.joins.length,
        store.passes query.filter tuple = .ok (passed tuple) := by
    intro tuple member
    rcases List.mem_flatMap.mp member with ⟨row, row_mem, tuple_mem⟩
    rcases List.mem_map.mp tuple_mem with ⟨choice, listed, rfl⟩
    simp only [passed, decides_listed row row_mem choice listed]
    rfl
  have selected : store.select { query with distinct := false } = _ :=
    select_eq (conforms.expand_eq_flatMap joined inner table_eq) decided
  rw [selected, List.filter_flatMap, List.map_flatMap]
  apply congrArg Except.ok
  apply List.flatMap_congr
  intro row row_mem
  apply (covers row row_mem).roots_eq_replicate same
  intro choice listed
  simp only [passed, decides_listed row row_mem choice listed]
  rfl

/-- A query that gives each row once gives those that it would give more often. -/
theorem select_distinct {rows : List RowRef}
    (plain : store.select { query with distinct := false } = .ok rows) (distinct : Bool) :
    store.select { query with distinct } =
      .ok (if distinct then withoutRepeats rows else rows) := by
  rcases select_eq_ok_iff.mp plain with ⟨tuples, passed, tuples_eq, passes, rfl⟩
  exact select_eq tuples_eq passes

end Store

end FilterQuery
