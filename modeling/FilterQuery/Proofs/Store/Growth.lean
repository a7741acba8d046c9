import FilterQuery.Proofs.Store.NestedLoops

/-!
# Rows that are added

A store grows when rows are added behind those that its tables have.  What could be read in it is
read alike afterwards, so a row that was expanded and decided without an error is expanded and
decided in the same way.  The reads that failed are another matter: a reference that led nowhere
may lead to a new row.  Yet none of them had a part in an answer.

So an answer stays what it was if the table of the root is the same, and otherwise goes on with new
rows only.
-/

namespace FilterQuery.Store

/-- A store that has grown: each table is there with its identifier, and its rows stand in front of
those that have been added. -/
def Grows (store next : Store) : Prop :=
  ∀ entity table, store.get? entity = some table →
    ∃ added, next.get? entity = some { table with rows := table.rows ++ added }

variable {store next : Store} {query : Query} {tuple : Tuple}

theorem table_eq_ok_iff {entity : EntityId} {table : Table} :
    store.table entity = .ok table ↔ store.get? entity = some table := by
  cases found : store.get? entity <;> simp [Store.table, found]

/-! ## Reading -/

namespace Grows

section

variable (grows : store.Grows next)

include grows

theorem exists_table {entity : EntityId} {table : Table} (found : store.table entity = .ok table) :
    ∃ added, next.table entity = .ok { table with rows := table.rows ++ added } := by
  rcases grows entity table (table_eq_ok_iff.mp found) with ⟨added, grown⟩
  exact ⟨added, table_eq_ok_iff.mpr grown⟩

/-- A row keeps its fields. -/
theorem record_eq {row : RowRef} {record : Record} (found : store.record row = .ok record) :
    next.record row = .ok record := by
  rcases bind_eq_ok_iff.mp found with ⟨table, table_eq, record_eq⟩
  rcases grows.exists_table table_eq with ⟨added, grown⟩
  refine bind_eq_ok_iff.mpr ⟨_, grown, ?_⟩
  cases entry : table.rows[row.row]? with
  | none =>
      rw [entry] at record_eq
      cases record_eq
  | some present =>
      rw [entry] at record_eq
      have inside := (List.getElem?_eq_some_iff.mp entry).1
      simp only [List.getElem?_append_left inside, entry]
      exact record_eq

/-- A row keeps its identifier. -/
theorem identifierOf_eq {row : RowRef} {value : Value}
    (found : store.identifierOf row = .ok value) : next.identifierOf row = .ok value := by
  rcases bind_eq_ok_iff.mp found with ⟨table, table_eq, found⟩
  rcases bind_eq_ok_iff.mp found with ⟨record, record_eq, value_eq⟩
  rcases grows.exists_table table_eq with ⟨added, grown⟩
  exact bind_eq_ok_iff.mpr ⟨_, grown, bind_eq_ok_iff.mpr ⟨_, grows.record_eq record_eq, value_eq⟩⟩

theorem scalar_eq {path : AttributePath} {datum : Option Datum} {value : Value}
    (found : store.scalar path datum = .ok value) : next.scalar path datum = .ok value := by
  match datum with
  | some (.reference (some row)) => exact grows.identifierOf_eq found
  | some (.value _) | some (.reference none) | some (.embedded _) | none => exact found
  | some (.references _) | some (.elements _) => exact found

/-- A path that led to a value leads to it still. -/
theorem read_eq {path : AttributePath} {value : Value} (found : store.read path tuple = .ok value) :
    next.read path tuple = .ok value := by
  rcases path with ⟨context, segments⟩
  rcases bind_eq_ok_iff.mp found with ⟨binding, binding_eq, found⟩
  refine bind_eq_ok_iff.mpr ⟨binding, binding_eq, ?_⟩
  cases binding with
  | missing => exact found
  | element element => cases segments <;> exact found
  | row row =>
      cases segments with
      | nil => exact grows.identifierOf_eq found
      | cons segment segments =>
          rcases bind_eq_ok_iff.mp found with ⟨record, record_eq, found⟩
          exact bind_eq_ok_iff.mpr ⟨record, grows.record_eq record_eq, grows.scalar_eq found⟩

/-! ## Evaluation -/

end

mutual
/-- A predicate that was decided is decided alike: the conditions that were looked at are looked at
again, and no others. -/
theorem holds_eq (grows : store.Grows next) : (predicate : Predicate) → {decided : Bool} →
    store.holds tuple predicate = .ok decided → next.holds tuple predicate = .ok decided
  | .compare path op value, _, found
  | .like path pattern negated, _, found
  | .isNull path negated, _, found
  | .isIn path values negated, _, found => by
      rw [holds] at found ⊢
      rcases bind_eq_ok_iff.mp found with ⟨actual, actual_eq, decided_eq⟩
      exact bind_eq_ok_iff.mpr ⟨actual, grows.read_eq actual_eq, decided_eq⟩
  | .and children, _, found => by
      rw [holds] at found ⊢
      exact grows.holdAll_eq children found
  | .or children, _, found => by
      rw [holds] at found ⊢
      exact grows.holdAny_eq children found

theorem holdAll_eq (grows : store.Grows next) : (children : List Predicate) → {decided : Bool} →
    store.holdAll tuple children = .ok decided → next.holdAll tuple children = .ok decided
  | [], _, found => by
      rw [holdAll] at found ⊢
      exact found
  | child :: children, _, found => by
      rw [holdAll] at found ⊢
      rcases bind_eq_ok_iff.mp found with ⟨first, first_eq, found⟩
      refine bind_eq_ok_iff.mpr ⟨first, grows.holds_eq child first_eq, ?_⟩
      cases first with
      | false => exact found
      | true => exact grows.holdAll_eq children found

theorem holdAny_eq (grows : store.Grows next) : (children : List Predicate) → {decided : Bool} →
    store.holdAny tuple children = .ok decided → next.holdAny tuple children = .ok decided
  | [], _, found => by
      rw [holdAny] at found ⊢
      exact found
  | child :: children, _, found => by
      rw [holdAny] at found ⊢
      rcases bind_eq_ok_iff.mp found with ⟨first, first_eq, found⟩
      refine bind_eq_ok_iff.mpr ⟨first, grows.holds_eq child first_eq, ?_⟩
      cases first with
      | false => exact grows.holdAny_eq children found
      | true => exact found
end

section

variable (grows : store.Grows next)

include grows

theorem passes_eq {filter : Option Predicate} {decided : Bool}
    (found : store.passes filter tuple = .ok decided) :
    next.passes filter tuple = .ok decided := by
  cases filter with
  | none => exact found
  | some predicate => exact grows.holds_eq predicate found

/-! ## Expansion -/

/-- A join that had targets has the same ones. -/
theorem targets_eq {join : Join} {targets : List Binding}
    (found : store.targets join tuple = .ok targets) : next.targets join tuple = .ok targets := by
  rcases bind_eq_ok_iff.mp found with ⟨parent, parent_eq, found⟩
  rcases bind_eq_ok_iff.mp found with ⟨bindings, bindings_eq, targets_eq⟩
  refine bind_eq_ok_iff.mpr ⟨parent, parent_eq, bind_eq_ok_iff.mpr ⟨bindings, ?_, targets_eq⟩⟩
  cases parent with
  | none => exact bindings_eq
  | some row =>
      rcases bind_eq_ok_iff.mp bindings_eq with ⟨record, record_eq, bindings_eq⟩
      exact bind_eq_ok_iff.mpr ⟨record, grows.record_eq record_eq, bindings_eq⟩

/-- A tuple is expanded alike. -/
theorem loop_eq {joins : List Join} {tuples : List Tuple}
    (run : store.loop joins tuple = .ok tuples) : next.loop joins tuple = .ok tuples := by
  induction joins generalizing tuple tuples with
  | nil => exact run
  | cons join joins ih =>
      rw [loop_cons] at run ⊢
      rcases bind_eq_ok_iff.mp run with ⟨targets, found, run⟩
      rcases forEach_eq_ok_iff.mp run with ⟨yields, inside, rfl⟩
      refine bind_eq_ok_iff.mpr ⟨targets, grows.targets_eq found, forEach_eq_ok_iff.mpr ?_⟩
      exact ⟨yields, fun target member => ih (inside target member), rfl⟩

/-- A query whose root has the rows that it had is expanded alike. -/
theorem expand_eq (same : next.get? query.root = store.get? query.root) {tuples : List Tuple}
    (expanded : store.expand query = .ok tuples) : next.expand query = .ok tuples := by
  rw [expand_eq_ok_iff_nestedLoop, nestedLoop_eq_ok_iff] at expanded ⊢
  rcases expanded with ⟨table, yields, table_eq, inside, tuples_eq⟩
  exact ⟨table, yields, same.trans table_eq, fun row bound => grows.loop_eq (inside row bound),
    tuples_eq⟩

/-- If the root has more rows and all of them are expanded, the tuples of the new rows come behind
those of the others. -/
theorem exists_expand_append {tuples grown : List Tuple}
    (expanded : store.expand query = .ok tuples) (expandedAgain : next.expand query = .ok grown) :
    ∃ added, grown = tuples ++ added ∧ ∀ tuple ∈ added, ¬store.HasRow tuple.root := by
  rw [expand_eq_ok_iff_nestedLoop, nestedLoop_eq_ok_iff] at expanded expandedAgain
  rcases expanded with ⟨table, yields, table_eq, inside, rfl⟩
  rcases expandedAgain with ⟨grownTable, grownYields, grown_eq, grownInside, rfl⟩
  rcases grows _ _ table_eq with ⟨rows, next_eq⟩
  obtain rfl : _ = grownTable := Option.some.inj (next_eq.symm.trans grown_eq)
  rw [List.length_append] at grownInside ⊢
  rw [List.range_add, List.flatMap_append]
  refine ⟨_, congrArg (· ++ _) (List.flatMap_congr fun row member => ?_), ?_⟩
  · have bound : row < table.rows.length := List.mem_range.mp member
    have again := grows.loop_eq (inside row bound)
    exact Except.ok.inj ((grownInside row (Nat.lt_add_right _ bound)).symm.trans again)
  · intro tuple member
    rcases List.mem_flatMap.mp member with ⟨row, row_mem, tuple_mem⟩
    rcases List.mem_map.mp row_mem with ⟨place, place_mem, rfl⟩
    have bound := Nat.add_lt_add_left (List.mem_range.mp place_mem) table.rows.length
    rw [(extends_of_mem_loop (grownInside _ bound) tuple tuple_mem).1]
    rintro ⟨found, found_eq, row_lt⟩
    obtain rfl : table = found := Option.some.inj (table_eq.symm.trans found_eq)
    exact Nat.not_lt.mpr (Nat.le_add_right _ _) row_lt

/-! ## Answers -/

/-- A query whose root has the rows that it had gives the answer that it gave. -/
theorem select_eq (same : next.get? query.root = store.get? query.root) {rows : List RowRef}
    (selected : store.select query = .ok rows) : next.select query = .ok rows := by
  rw [select_eq_ok_iff] at selected ⊢
  rcases selected with ⟨tuples, passed, expanded, passes, rows_eq⟩
  exact ⟨tuples, passed, grows.expand_eq same expanded,
    fun tuple member => grows.passes_eq (passes tuple member), rows_eq⟩

end

end Grows

/-- Rows behind others that they do not repeat. -/
theorem withoutRepeats_append {rows more : List RowRef} (apart : ∀ row ∈ more, row ∉ rows) :
    withoutRepeats (rows ++ more) = withoutRepeats rows ++ withoutRepeats more := by
  induction rows with
  | nil => rfl
  | cons row rows ih =>
      have others : ∀ found ∈ more, found ∉ rows := fun found member inside =>
        apart found member (List.mem_cons_of_mem row inside)
      have kept : (withoutRepeats more).filter (· ≠ row) = withoutRepeats more := by
        refine List.filter_eq_self.mpr fun found member => decide_eq_true ?_
        rintro rfl
        exact apart found (mem_withoutRepeats.mp member) List.mem_cons_self
      rw [List.cons_append, withoutRepeats, withoutRepeats, ih others, List.filter_append, kept,
        List.cons_append]

/-- Any other answer goes on with rows that were not there. -/
theorem Grows.exists_select_append (grows : store.Grows next) {rows more : List RowRef}
    (selected : store.select query = .ok rows) (selectedAgain : next.select query = .ok more) :
    ∃ added, more = rows ++ added ∧
      ∀ row ∈ added, next.RowOf query.root row ∧ ¬store.HasRow row := by
  have present := ((expand_iff_nestedLoop_select_ordered store query).2 _ selected).2.1
  have presentAgain := ((expand_iff_nestedLoop_select_ordered next query).2 _ selectedAgain).2.1
  rcases select_eq_ok_iff.mp selected with ⟨tuples, passed, expanded, passes, rfl⟩
  rcases select_eq_ok_iff.mp selectedAgain with
    ⟨grown, passedAgain, expandedAgain, passesAgain, rfl⟩
  rcases grows.exists_expand_append expanded expandedAgain with ⟨added, rfl, fresh⟩
  rcases List.forall_mem_append.mp passesAgain with ⟨passesOld, -⟩
  have old_eq : tuples.filter passedAgain = tuples.filter passed :=
    List.filter_congr fun tuple member => Except.ok.inj
      ((passesOld tuple member).symm.trans (grows.passes_eq (passes tuple member)))
  rw [List.filter_append, List.map_append, old_eq] at presentAgain ⊢
  let found := (added.filter passedAgain).map (·.root)
  have found_fresh : ∀ row ∈ found, ¬store.HasRow row := by
    intro row member
    rcases List.mem_map.mp member with ⟨tuple, tuple_mem, rfl⟩
    exact fresh tuple (List.mem_of_mem_filter tuple_mem)
  cases distinct : query.distinct with
  | false =>
      simp only [distinct, Bool.false_eq_true, if_false] at presentAgain ⊢
      exact ⟨found, rfl, fun row member =>
        ⟨presentAgain row (List.mem_append_right _ member), found_fresh row member⟩⟩
  | true =>
      simp only [distinct, if_true] at present presentAgain ⊢
      refine ⟨withoutRepeats found, withoutRepeats_append ?_, fun row member => ?_⟩
      · intro row member inside
        exact found_fresh row member (present row (mem_withoutRepeats.mpr inside)).2
      · have inside := mem_withoutRepeats.mp member
        exact ⟨presentAgain row (mem_withoutRepeats.mpr (List.mem_append_right _ inside)),
          found_fresh row inside⟩

/-! ## Inserting -/

/-- A record is inserted behind the rows of a table, if there is the table. -/
theorem insert_eq_ok {entity : EntityId} {table : Table} (found : store.get? entity = some table)
    (record : Record) :
    store.insert entity record = .ok (⟨entity, table.rows.length⟩,
      store.put entity { table with rows := table.rows ++ [record] }) := by
  simp only [insert, Store.table, found, bind, Except.bind]

theorem grows_put {entity : EntityId} {table : Table} (found : store.get? entity = some table)
    (added : List Record) :
    store.Grows (store.put entity { table with rows := table.rows ++ added }) := by
  intro other present present_eq
  by_cases same : entity = other
  · subst same
    obtain rfl : table = present := Option.some.inj (found.symm.trans present_eq)
    exact ⟨added, Keyed.get?_put_self ..⟩
  · exact ⟨[], by rw [Keyed.get?_put_of_ne same, present_eq, List.append_nil]⟩

/-- A record that is inserted into a table changes the answer to a query only where it has to.  If
the table is not that of the root, the answer stays what it was; if it is, any answer is the one
that it was and behind it nothing but the new row, once or several times. -/
theorem select_of_insert {rows : List RowRef} (selected : store.select query = .ok rows)
    {entity : EntityId} {table : Table} (found : store.get? entity = some table)
    (record : Record) :
    ∃ next, store.insert entity record = .ok (⟨entity, table.rows.length⟩, next) ∧
      (entity ≠ query.root → next.select query = .ok rows) ∧
      (entity = query.root → ∀ more, next.select query = .ok more →
        ∃ added, more = rows ++ added ∧ ∀ row ∈ added, row = ⟨entity, table.rows.length⟩) := by
  have grows := grows_put found [record]
  refine ⟨_, insert_eq_ok found record, fun other => ?_, ?_⟩
  · exact grows.select_eq (Keyed.get?_put_of_ne other ..) selected
  · rintro rfl more selectedAgain
    rcases grows.exists_select_append selected selectedAgain with ⟨added, more_eq, fresh⟩
    refine ⟨added, more_eq, fun row member => ?_⟩
    rcases fresh row member with ⟨⟨entity_eq, grown, grown_eq, row_lt⟩, absent⟩
    rw [entity_eq, Keyed.get?_put_self] at grown_eq
    obtain rfl := Option.some.inj grown_eq
    rw [List.length_append, List.length_singleton] at row_lt
    have behind : ¬row.row < table.rows.length := fun inside =>
      absent ⟨table, entity_eq ▸ found, inside⟩
    have row_eq : row.row = table.rows.length := by omega
    exact RowRef.mk.injEq .. ▸ ⟨entity_eq, row_eq⟩

/-- Employees with their chiefs, whose identifiers are compared after those of the employees. -/
def chiefs : Query :=
  { Query.select ⟨2⟩ with
    joins := [{ id := 0, parent := .root, path := "chief", target := .entity ⟨2⟩, kind := .left }]
    index := [((.root, "chief"), 0)]
    filter := some (.or [.compare ⟨.root, ["id"]⟩ .le (.int 2),
      .compare ⟨.join 0, ["id"]⟩ .eq (.int 2)]) }

/-- Two employees, the second of whom has a chief that is not there; he is not asked for. -/
def headlessStore : Store :=
  [(⟨1⟩, { identifier := "id" }),
   (⟨2⟩, { identifier := "id"
           rows := [[("id", .value (.int 1))],
             [("id", .value (.int 2)), ("chief", .reference (some ⟨⟨2⟩, 2⟩))]] })]

/-- A third employee, who is the missing chief and has the second one for a chief, is selected
behind the others; a department makes no difference. -/
theorem select_of_insert_headless :
    let third : Record := [("id", .value (.int 3)), ("chief", .reference (some ⟨⟨2⟩, 1⟩))]
    headlessStore.select chiefs = .ok [⟨⟨2⟩, 0⟩, ⟨⟨2⟩, 1⟩] ∧
      (∃ next, headlessStore.insert ⟨1⟩ [] = .ok (⟨⟨1⟩, 0⟩, next) ∧
        next.select chiefs = .ok [⟨⟨2⟩, 0⟩, ⟨⟨2⟩, 1⟩]) ∧
      ∃ next, headlessStore.insert ⟨2⟩ third = .ok (⟨⟨2⟩, 2⟩, next) ∧
        next.select chiefs = .ok [⟨⟨2⟩, 0⟩, ⟨⟨2⟩, 1⟩, ⟨⟨2⟩, 2⟩] ∧
        ∃ added : List RowRef,
          [⟨⟨2⟩, 0⟩, ⟨⟨2⟩, 1⟩, ⟨⟨2⟩, 2⟩] = [⟨⟨2⟩, 0⟩, ⟨⟨2⟩, 1⟩] ++ added ∧
          ∀ row ∈ added, row = ⟨⟨2⟩, 2⟩ := by
  intro third
  have selected : headlessStore.select chiefs = .ok [⟨⟨2⟩, 0⟩, ⟨⟨2⟩, 1⟩] := by decide +kernel
  obtain ⟨first, first_eq, unchanged, -⟩ := select_of_insert selected
    (show headlessStore.get? ⟨1⟩ = some _ from rfl) []
  obtain ⟨second, second_eq, -, continued⟩ := select_of_insert selected
    (show headlessStore.get? ⟨2⟩ = some _ from rfl) third
  have selectedAgain : second.select chiefs = .ok [⟨⟨2⟩, 0⟩, ⟨⟨2⟩, 1⟩, ⟨⟨2⟩, 2⟩] := by
    rw [← (Prod.mk.inj (Except.ok.inj second_eq)).2]
    decide +kernel
  exact ⟨selected, ⟨first, first_eq, unchanged (by decide)⟩, second, second_eq, selectedAgain,
    continued rfl _ selectedAgain⟩

end FilterQuery.Store
