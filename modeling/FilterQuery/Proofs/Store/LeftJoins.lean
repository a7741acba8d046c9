import FilterQuery.Proofs.Store.NestedLoops

/-!
# Left joins

A left join where a query has an inner one adds tuples and takes none away.  The tuples that it
adds are those with nothing at its place; without them, the others are as they were and in the
same order, whatever the later joins make of a parent that is not there.  So the rows that the
query selects are among those of the query with the left join, and a query that has only left
joins and no filter selects every row of its root.
-/

namespace FilterQuery

/-- The join that keeps a parent without targets. -/
def Join.asLeft (join : Join) : Join :=
  { join with kind := .left }

theorem Query.establish_left (query : Query) (k : JoinId) :
    query.establish k .left none = { query with joins := query.joins.modify k Join.asLeft } :=
  rfl

/-- Whether a tuple has something else than nothing at the place of a join. -/
def Tuple.finds (k : JoinId) (tuple : Tuple) : Bool :=
  tuple.joined[k]? ≠ some .missing

namespace Store

variable {store : Store} {query : Query}

/-! ## A left join in place of an inner one -/

theorem missing_not_mem_targetsOf {path : String} {parent : Option RowRef}
    {targets : List Binding} (found : store.targetsOf path parent = .ok targets) :
    .missing ∉ targets := by
  cases parent with
  | none =>
      rw [← Except.ok.inj found]
      exact List.not_mem_nil
  | some row =>
      rcases bind_eq_ok_iff.mp found with ⟨record, -, targets_eq⟩
      rw [← Except.ok.inj targets_eq]
      exact missing_not_mem_bindings _

/-- An inner join has the targets of the left join that are not nothing. -/
theorem targets_of_asLeft {join : Join} (inner : join.kind = .inner) {tuple : Tuple}
    {lefts : List Binding} (found : store.targets join.asLeft tuple = .ok lefts) :
    store.targets join tuple = .ok (lefts.filter (· ≠ .missing)) := by
  rcases bind_eq_ok_iff.mp found with ⟨parent, parent_eq, found⟩
  rcases bind_eq_ok_iff.mp found with ⟨targets, targets_eq, lefts_eq⟩
  have plain : store.targets join tuple = .ok targets := by
    refine bind_eq_ok_iff.mpr ⟨parent, parent_eq, bind_eq_ok_iff.mpr ⟨targets, targets_eq, ?_⟩⟩
    simp [inner]
  have kept : targets.filter (· ≠ .missing) = targets := by
    refine List.filter_eq_self.mpr fun target member => ?_
    exact decide_eq_true fun missing => missing_not_mem_targetsOf targets_eq (missing ▸ member)
  rw [plain, ← Except.ok.inj lefts_eq]
  split
  · rename_i none_found
    rw [none_found.1]
    rfl
  · rw [kept]

/-- The tuples of loops with a left join that have a target at its place are those of the loops
with the inner join. -/
theorem loop_of_left {joins : List Join} {k : JoinId} {join : Join}
    (join_eq : joins[k]? = some join) (inner : join.kind = .inner) {tuple : Tuple}
    {lefts : List Tuple} (run : store.loop (joins.modify k Join.asLeft) tuple = .ok lefts) :
    store.loop joins tuple = .ok (lefts.filter (·.finds (tuple.joined.length + k))) := by
  induction joins generalizing k tuple lefts with
  | nil => cases join_eq
  | cons first joins ih =>
      cases k with
      | zero =>
          obtain rfl : first = join := Option.some.inj join_eq
          rw [List.modify_zero_cons, loop_cons] at run
          rcases bind_eq_ok_iff.mp run with ⟨targets, targets_eq, run⟩
          rw [loop_cons, targets_of_asLeft inner targets_eq]
          apply forEach_filter run
          intro target target_mem yielded inside found found_mem
          rcases (extends_of_mem_loop inside found found_mem).2 with ⟨rest, joined_eq⟩
          simp [Tuple.finds, ← joined_eq]
      | succ k =>
          rw [List.modify_succ_cons, loop_cons] at run
          rcases bind_eq_ok_iff.mp run with ⟨targets, targets_eq, run⟩
          rw [loop_cons, targets_eq]
          apply forEach_of_body run
          intro target target_mem yielded inside
          have less := ih join_eq inside
          rw [Tuple.push_joined, List.length_append, List.length_singleton] at less
          rw [less, Nat.add_assoc, Nat.add_comm 1 k]

/-- Expansion with an inner join leaves out the tuples for which the left join finds nothing. -/
theorem expand_of_left {k : JoinId} {join : Join} (join_eq : query.joins[k]? = some join)
    (inner : join.kind = .inner) {tuples : List Tuple}
    (expanded : store.expand (query.establish k .left none) = .ok tuples) :
    store.expand query = .ok (tuples.filter (·.finds k)) := by
  rw [Query.establish_left] at expanded
  rw [expand_eq_ok_iff_nestedLoop] at expanded ⊢
  rcases bind_eq_ok_iff.mp expanded with ⟨table, table_eq, run⟩
  refine bind_eq_ok_iff.mpr ⟨table, table_eq, forEach_of_body run ?_⟩
  intro row inside yielded loop_eq
  have less := loop_of_left join_eq inner loop_eq
  rwa [List.length_nil, Nat.zero_add] at less

/-! ## Left joins only -/

theorem targets_ne_nil_of_left {join : Join} (left : join.kind = .left) {tuple : Tuple}
    {targets : List Binding} (found : store.targets join tuple = .ok targets) : targets ≠ [] := by
  rcases bind_eq_ok_iff.mp found with ⟨parent, -, found⟩
  rcases bind_eq_ok_iff.mp found with ⟨bindings, -, targets_eq⟩
  rw [← Except.ok.inj targets_eq]
  split
  · exact List.cons_ne_nil _ _
  · rename_i some_found
    exact fun none_found => some_found ⟨none_found, left⟩

/-- Loops over the targets of left joins make some tuple of every tuple. -/
theorem loop_ne_nil_of_left {joins : List Join} (left : ∀ join ∈ joins, join.kind = .left)
    {tuple : Tuple} {tuples : List Tuple} (run : store.loop joins tuple = .ok tuples) :
    tuples ≠ [] := by
  induction joins generalizing tuple tuples with
  | nil =>
      rw [← Except.ok.inj run]
      exact List.cons_ne_nil _ _
  | cons join joins ih =>
      rcases List.forall_mem_cons.mp left with ⟨first_left, others_left⟩
      rw [loop_cons] at run
      rcases bind_eq_ok_iff.mp run with ⟨targets, targets_eq, run⟩
      rcases forEach_eq_ok_iff.mp run with ⟨yields, inside, rfl⟩
      rcases List.exists_mem_of_ne_nil _ (targets_ne_nil_of_left first_left targets_eq) with
        ⟨target, target_mem⟩
      intro none_made
      rw [List.flatMap_eq_nil_iff] at none_made
      exact ih others_left (inside target target_mem) (none_made target target_mem)

/-- A query that has only left joins has a tuple for every row of its root. -/
theorem exists_tuple_of_left (left : ∀ join ∈ query.joins, join.kind = .left)
    {tuples : List Tuple} (expanded : store.expand query = .ok tuples) {row : RowRef}
    (found : store.RowOf query.root row) : ∃ tuple ∈ tuples, tuple.root = row := by
  rcases nestedLoop_eq_ok_iff.mp (expand_eq_ok_iff_nestedLoop.mp expanded) with
    ⟨table, yields, table_eq, inside, rfl⟩
  rcases found with ⟨entity_eq, table', table_eq', row_lt⟩
  rw [entity_eq, table_eq] at table_eq'
  obtain rfl : table = table' := Option.some.inj table_eq'
  have run := inside row.row row_lt
  rcases List.exists_mem_of_ne_nil _ (loop_ne_nil_of_left left run) with ⟨tuple, tuple_mem⟩
  refine ⟨tuple, List.mem_flatMap.mpr ⟨row.row, List.mem_range.mpr row_lt, tuple_mem⟩, ?_⟩
  rw [(extends_of_mem_loop run tuple tuple_mem).1, ← entity_eq]

/-! ## Answers -/

/-- The rows that a query selects with an inner join are among those that it selects with a left
join there, in the same order; what the left join adds are the tuples in which it finds nothing. -/
theorem exists_select_of_left {k : JoinId} {join : Join} (join_eq : query.joins[k]? = some join)
    (inner : join.kind = .inner) (plain : query.distinct = false) {leftRows : List RowRef}
    (selected : store.select (query.establish k .left none) = .ok leftRows) :
    ∃ rows, store.select query = .ok rows ∧ rows.Sublist leftRows ∧
      ∃ tuples, ∃ passed : Tuple → Bool,
        store.expand (query.establish k .left none) = .ok tuples ∧
        store.expand query = .ok (tuples.filter (·.finds k)) ∧
        (∀ tuple ∈ tuples, store.passes query.filter tuple = .ok (passed tuple)) ∧
        leftRows = (tuples.filter passed).map (·.root) ∧
        rows = ((tuples.filter (·.finds k)).filter passed).map (·.root) := by
  rcases select_eq_ok_iff.mp selected with ⟨tuples, passed, tuples_eq, passes, rows_eq⟩
  have left_plain : (query.establish k .left none).distinct = false := plain
  rw [left_plain, if_neg Bool.false_ne_true] at rows_eq
  have expanded := expand_of_left join_eq inner tuples_eq
  have rows_selected := select_eq expanded
    fun tuple member => passes tuple (List.mem_of_mem_filter member)
  rw [plain, if_neg Bool.false_ne_true] at rows_selected
  refine ⟨_, rows_selected, ?_, tuples, passed, tuples_eq, expanded, passes, rows_eq.symm, rfl⟩
  rw [← rows_eq]
  exact (List.filter_sublist.filter passed).map _

/-- A query that has only left joins and no filter selects every row of its root. -/
theorem mem_of_select_of_left (left : ∀ join ∈ query.joins, join.kind = .left)
    (unfiltered : query.filter = none) {rows : List RowRef}
    (selected : store.select query = .ok rows) {row : RowRef}
    (found : store.RowOf query.root row) : row ∈ rows := by
  rcases select_eq_ok_iff.mp selected with ⟨tuples, passed, tuples_eq, passes, rfl⟩
  rcases exists_tuple_of_left left tuples_eq found with ⟨tuple, tuple_mem, rfl⟩
  have passed_eq : passed tuple = true := by
    have decided := passes tuple tuple_mem
    rw [unfiltered] at decided
    exact (Except.ok.inj decided).symm
  have matching : tuple.root ∈ (tuples.filter passed).map (·.root) :=
    List.mem_map_of_mem (List.mem_filter.mpr ⟨tuple_mem, passed_eq⟩)
  split
  · exact mem_withoutRepeats.mpr matching
  · exact matching

/-- A left join in place of an inner one loses no row: the rows that were selected stay in their
order, and the tuples that are new are those with nothing at the place of the join.  Where all
joins are left ones and nothing is filtered, every row of the root is selected. -/
theorem left_join_loses_no_row (store : Store) (query : Query) :
    (∀ k join, query.joins[k]? = some join → join.kind = .inner → query.distinct = false →
      ∀ leftRows, store.select (query.establish k .left none) = .ok leftRows →
        ∃ rows, store.select query = .ok rows ∧ rows.Sublist leftRows ∧
          ∃ tuples, ∃ passed : Tuple → Bool,
            store.expand (query.establish k .left none) = .ok tuples ∧
            store.expand query = .ok (tuples.filter (·.finds k)) ∧
            (∀ tuple ∈ tuples, store.passes query.filter tuple = .ok (passed tuple)) ∧
            leftRows = (tuples.filter passed).map (·.root) ∧
            rows = ((tuples.filter (·.finds k)).filter passed).map (·.root)) ∧
      ((∀ join ∈ query.joins, join.kind = .left) → query.filter = none →
        ∀ rows, store.select query = .ok rows →
          ∀ row, store.RowOf query.root row → row ∈ rows) := by
  constructor
  · intro k join join_eq inner plain leftRows selected
    exact exists_select_of_left join_eq inner plain selected
  · intro left unfiltered rows selected row found
    exact mem_of_select_of_left left unfiltered selected found

/-- The empty department is selected where its members are joined by a left join. -/
theorem left_join_loses_no_row_company :
    companyStore.select (departmentSkills .left) =
        .ok [⟨⟨1⟩, 0⟩, ⟨⟨1⟩, 0⟩, ⟨⟨1⟩, 0⟩, ⟨⟨1⟩, 1⟩] ∧
      companyStore.select (departmentSkills .inner) = .ok [⟨⟨1⟩, 0⟩, ⟨⟨1⟩, 0⟩, ⟨⟨1⟩, 0⟩] ∧
      (∃ tuples, companyStore.expand (departmentSkills .left) = .ok tuples ∧
        companyStore.expand (departmentSkills .inner) = .ok (tuples.filter (·.finds 0))) ∧
      ∀ row, companyStore.RowOf ⟨1⟩ row → row ∈
        ([⟨⟨1⟩, 0⟩, ⟨⟨1⟩, 0⟩, ⟨⟨1⟩, 0⟩, ⟨⟨1⟩, 1⟩] : List RowRef) := by
  have selected : companyStore.select (departmentSkills .left) =
      .ok [⟨⟨1⟩, 0⟩, ⟨⟨1⟩, 0⟩, ⟨⟨1⟩, 0⟩, ⟨⟨1⟩, 1⟩] := by
    decide +kernel
  have fewer : companyStore.select (departmentSkills .inner) =
      .ok [⟨⟨1⟩, 0⟩, ⟨⟨1⟩, 0⟩, ⟨⟨1⟩, 0⟩] := by
    decide +kernel
  obtain ⟨_, -, -, tuples, _, left_eq, inner_eq, -⟩ :=
    (left_join_loses_no_row companyStore (departmentSkills .inner)).1 0 _ rfl rfl rfl _ selected
  have every := (left_join_loses_no_row companyStore (departmentSkills .left)).2 (by decide) rfl _
    selected
  exact ⟨selected, fewer, ⟨tuples, left_eq, inner_eq⟩, every⟩

end Store

end FilterQuery
