import FilterQuery.Proofs.Store.Soundness

/-!
# Expansion as nested loops

An execution makes the tuples of a query join by join, each time from all tuples for the joins
in front.  The same tuples, in the same order, come from loops inside each other: one over the
rows of the root, and in it one over the targets of each join.  An error stops both or neither,
though not always the same one, since the loops come to the later joins of a tuple first.

That the tuples of a row stand side by side, and the rows in the order of their table, is plain
for the loops; so it holds of the answer to a query.
-/

namespace FilterQuery

/-- The tuple with a binding for one more join. -/
def Tuple.push (tuple : Tuple) (binding : Binding) : Tuple :=
  { tuple with joined := tuple.joined ++ [binding] }

@[simp]
theorem Tuple.push_root (tuple : Tuple) (binding : Binding) :
    (tuple.push binding).root = tuple.root :=
  rfl

@[simp]
theorem Tuple.push_joined (tuple : Tuple) (binding : Binding) :
    (tuple.push binding).joined = tuple.joined ++ [binding] :=
  rfl

namespace Store

variable {store : Store} {query : Query}

/-! ## Nested loops -/

/-- The tuples that the loops over the targets of some joins make of a tuple.  A left join
without targets goes on once, with nothing in its place. -/
def loop (store : Store) : List Join → Tuple → Except StoreError (List Tuple)
  | [], tuple => .ok [tuple]
  | join :: joins, tuple => do
      let parent ← parentRow tuple join.parent
      let targets ← store.targetsOf join.path parent
      match targets, join.kind with
      | [], .left => loop store joins (tuple.push .missing)
      | targets, _ => forEach (fun target => loop store joins (tuple.push target)) targets

/-- The tuples that the loop over the rows of the root makes, with the loops over the targets
of the joins inside. -/
def nestedLoop (store : Store) (query : Query) : Except StoreError (List Tuple) := do
  let table ← store.table query.root
  forEach (fun row => store.loop query.joins { root := ⟨query.root, row⟩ })
    (List.range table.rows.length)

/-- A left join without targets goes on as one that has nothing for its target. -/
theorem loop_cons (store : Store) (join : Join) (joins : List Join) (tuple : Tuple) :
    store.loop (join :: joins) tuple =
      store.targets join tuple >>= forEach fun target => store.loop joins (tuple.push target) := by
  rw [loop, targets]
  cases parent_eq : parentRow tuple join.parent with
  | error error => rfl
  | ok parent =>
      cases targets_eq : store.targetsOf join.path parent with
      | error error => simp [bind, Except.bind, targets_eq]
      | ok targets =>
          simp only [bind, Except.bind, targets_eq]
          cases join.kind with
          | inner => cases targets <;> simp
          | left =>
              cases targets with
              | nil =>
                  cases passed : store.loop joins (tuple.push .missing) with
                  | error error => simp [forEach, passed, bind, Except.bind]
                  | ok tuples => simp [forEach, passed, bind, Except.bind]
              | cons target targets => simp

/-- A loop over the tuples that a join makes is a loop over the targets of the join. -/
theorem extend_bind_forEach (store : Store) (join : Join) (tuple : Tuple)
    (body : Tuple → Except StoreError (List Tuple)) :
    store.extend join tuple >>= forEach body =
      store.targets join tuple >>= forEach fun target => body (tuple.push target) := by
  rw [extend]
  cases store.targets join tuple with
  | error error => rfl
  | ok targets => exact forEach_map body tuple.push targets

/-- What expansion makes of some tuples, join by join, the loops make of them, one by one. -/
theorem foldlM_extendAll_eq_ok_iff {joins : List Join} {tuples result : List Tuple} :
    joins.foldlM store.extendAll tuples = .ok result ↔
      forEach (store.loop joins) tuples = .ok result := by
  induction joins generalizing tuples with
  | nil =>
      have each : forEach (store.loop []) tuples = .ok tuples :=
        forEach_eq_ok_iff.mpr ⟨fun tuple => [tuple], fun _ _ => rfl, by simp⟩
      rw [each]
      rfl
  | cons join joins ih =>
      have loop_eq : store.loop (join :: joins) =
          fun tuple => store.extend join tuple >>= forEach (store.loop joins) := by
        funext tuple
        rw [loop_cons, extend_bind_forEach]
      rw [List.foldlM_cons, extendAll_eq_forEach, loop_eq, ← forEach_bind_eq_ok_iff]
      simp only [bind_eq_ok_iff, ih]

theorem expand_eq_ok_iff_nestedLoop {tuples : List Tuple} :
    store.expand query = .ok tuples ↔ store.nestedLoop query = .ok tuples := by
  rw [expand, nestedLoop, rootTuples]
  cases store.table query.root with
  | error error => exact Iff.of_eq rfl
  | ok table =>
      change query.joins.foldlM store.extendAll (List.map _ _) = _ ↔ _
      rw [foldlM_extendAll_eq_ok_iff, forEach_map]
      rfl

/-! ## The tuples of a row -/

/-- The loops inside keep what a tuple has and bind what comes behind. -/
theorem extends_of_mem_loop {joins : List Join} {tuple : Tuple} {tuples : List Tuple}
    (run : store.loop joins tuple = .ok tuples) :
    ∀ found ∈ tuples, found.root = tuple.root ∧ tuple.joined <+: found.joined := by
  induction joins generalizing tuple tuples with
  | nil =>
      obtain rfl : [tuple] = tuples := Except.ok.inj run
      intro found member
      obtain rfl := List.mem_singleton.mp member
      exact ⟨rfl, List.prefix_rfl⟩
  | cons join joins ih =>
      rw [loop_cons] at run
      rcases bind_eq_ok_iff.mp run with ⟨targets, -, run⟩
      rcases forEach_eq_ok_iff.mp run with ⟨yields, inner, rfl⟩
      intro found member
      rcases List.mem_flatMap.mp member with ⟨target, target_mem, found_mem⟩
      rcases ih (inner target target_mem) found found_mem with ⟨root_eq, extended⟩
      exact ⟨root_eq, (List.prefix_append _ _).trans extended⟩

/-- The loop over the rows of the root, with what the loops inside yield for each row. -/
theorem nestedLoop_eq_ok_iff {tuples : List Tuple} :
    store.nestedLoop query = .ok tuples ↔
      ∃ table, ∃ yields : Nat → List Tuple, store.get? query.root = some table ∧
        (∀ row < table.rows.length,
          store.loop query.joins { root := ⟨query.root, row⟩ } = .ok (yields row)) ∧
        (List.range table.rows.length).flatMap yields = tuples := by
  rw [nestedLoop, bind_eq_ok_iff]
  simp only [forEach_eq_ok_iff, List.mem_range, Store.table]
  constructor
  · rintro ⟨table, found, yields, inner, tuples_eq⟩
    cases table_eq : store.get? query.root with
    | none => simp [table_eq] at found
    | some table' =>
        obtain rfl : table' = table := by simpa [table_eq] using found
        exact ⟨table', yields, rfl, inner, tuples_eq⟩
  · rintro ⟨table, yields, table_eq, inner, tuples_eq⟩
    exact ⟨table, by rw [table_eq], yields, inner, tuples_eq⟩

/-- The tuples stand in the order of the rows at their roots, all of which are there. -/
theorem roots_of_nestedLoop {tuples : List Tuple} (run : store.nestedLoop query = .ok tuples) :
    (∀ tuple ∈ tuples, store.RowOf query.root tuple.root) ∧
      tuples.Pairwise fun first second => first.root.row ≤ second.root.row := by
  rcases nestedLoop_eq_ok_iff.mp run with ⟨table, yields, table_eq, inner, rfl⟩
  have root_eq {row : Nat} (inside : row ∈ List.range table.rows.length) :
      ∀ tuple ∈ yields row, tuple.root = ⟨query.root, row⟩ := fun tuple member =>
    (extends_of_mem_loop (inner row (List.mem_range.mp inside)) tuple member).1
  constructor
  · intro tuple member
    rcases List.mem_flatMap.mp member with ⟨row, inside, tuple_mem⟩
    rw [root_eq inside tuple tuple_mem]
    exact ⟨rfl, table, table_eq, List.mem_range.mp inside⟩
  · rw [List.pairwise_flatMap]
    constructor
    · intro row inside
      apply List.pairwise_of_forall_mem_list
      intro first first_mem second second_mem
      have same : first.root = second.root :=
        (root_eq inside first first_mem).trans (root_eq inside second second_mem).symm
      exact Nat.le_of_eq (congrArg RowRef.row same)
    · apply List.pairwise_lt_range.imp_of_mem
      intro row later row_inside later_inside before first first_mem second second_mem
      rw [root_eq row_inside first first_mem, root_eq later_inside second second_mem]
      exact Nat.le_of_lt before

/-! ## Answers -/

theorem withoutRepeats_sublist (rows : List RowRef) : (withoutRepeats rows).Sublist rows := by
  induction rows with
  | nil => exact .slnil
  | cons row rows ih => exact (List.filter_sublist.trans ih).cons_cons row

/-- Rows of one entity in the order of their table are strictly so without repeats. -/
theorem pairwise_withoutRepeats {entity : EntityId} {rows : List RowRef}
    (ordered : rows.Pairwise fun first second => first.row ≤ second.row)
    (of_entity : ∀ row ∈ rows, row.entity = entity) :
    (withoutRepeats rows).Pairwise fun first second => first.row < second.row := by
  have kept := (ordered.sublist (withoutRepeats_sublist rows)).and (nodup_withoutRepeats rows)
  apply kept.imp_of_mem
  intro first second first_mem second_mem ⟨before, differ⟩
  have entity_eq : first.entity = second.entity :=
    (of_entity first (mem_withoutRepeats.mp first_mem)).trans
      (of_entity second (mem_withoutRepeats.mp second_mem)).symm
  apply Nat.lt_of_le_of_ne before
  intro row_eq
  exact differ (RowRef.mk.injEq .. ▸ ⟨entity_eq, row_eq⟩)

theorem count_eq_ok {rows : List RowRef} (selected : store.select query = .ok rows) :
    store.count query = .ok rows.length := by
  rw [count, selected]
  rfl

/-- The tuples of a query are those of the nested loops, in the same order, and they are found
where the loops meet no error.  So an answer has rows of the root that are there, in the order
of their table, those of a distinct query each once, and the count is their number. -/
theorem expand_iff_nestedLoop_select_ordered (store : Store) (query : Query) :
    (∀ tuples, store.expand query = .ok tuples ↔ store.nestedLoop query = .ok tuples) ∧
      ∀ rows, store.select query = .ok rows →
        store.count query = .ok rows.length ∧
          (∀ row ∈ rows, store.RowOf query.root row) ∧
          (query.distinct = false →
            rows.Pairwise fun first second => first.row ≤ second.row) ∧
          (query.distinct = true →
            (rows.Pairwise fun first second => first.row < second.row) ∧
              ∃ repeated, store.select { query with distinct := false } = .ok repeated ∧
                ∀ row, row ∈ rows ↔ row ∈ repeated) := by
  refine ⟨fun tuples => expand_eq_ok_iff_nestedLoop, ?_⟩
  intro rows selected
  refine ⟨count_eq_ok selected, ?_⟩
  rcases select_eq_ok_iff.mp selected with ⟨tuples, passed, tuples_eq, passes, rfl⟩
  rcases roots_of_nestedLoop (expand_eq_ok_iff_nestedLoop.mp tuples_eq) with ⟨found, ordered⟩
  have roots_found : ∀ row ∈ (tuples.filter passed).map (·.root), store.RowOf query.root row := by
    intro row member
    rcases List.mem_map.mp member with ⟨tuple, tuple_mem, rfl⟩
    exact found tuple (List.mem_of_mem_filter tuple_mem)
  have roots_ordered : ((tuples.filter passed).map (·.root)).Pairwise
      fun first second => first.row ≤ second.row :=
    List.pairwise_map.mpr (ordered.filter passed)
  cases distinct : query.distinct with
  | false =>
      rw [if_neg Bool.false_ne_true]
      exact ⟨roots_found, fun _ => roots_ordered, fun h => absurd h Bool.false_ne_true⟩
  | true =>
      rw [if_pos rfl]
      refine ⟨fun row member => roots_found row (mem_withoutRepeats.mp member),
        fun h => absurd h.symm Bool.false_ne_true, fun _ => ⟨?_, ?_⟩⟩
      · exact pairwise_withoutRepeats roots_ordered fun row member => (roots_found row member).1
      · exact ⟨_, select_eq tuples_eq passes, fun row => mem_withoutRepeats⟩

/-- Departments with their members and, by a left join, the skills of these. -/
def departmentSkills (kind : JoinKind) : Query :=
  { Query.select ⟨1⟩ with
    joins := [{ id := 0, parent := .root, path := "members", target := .entity ⟨2⟩, kind },
      { id := 1, parent := .join 0, path := "skills", target := .elements .text, kind := .left }]
    index := [((.root, "members"), 0), ((.join 0, "skills"), 1)] }

/-- The department of two employees is selected once for each skill of one of them and once for
the other, who has none, and the empty department once; without repeats each department once. -/
theorem expand_iff_nestedLoop_select_ordered_company :
    (∃ tuples, companyStore.expand (departmentSkills .left) = .ok tuples ∧
      companyStore.nestedLoop (departmentSkills .left) = .ok tuples ∧
      tuples.map (·.joined) =
        [[.row ⟨⟨2⟩, 0⟩, .element (.text "lean")], [.row ⟨⟨2⟩, 0⟩, .element (.text "go")],
          [.row ⟨⟨2⟩, 1⟩, .missing], [.missing, .missing]]) ∧
      companyStore.select (departmentSkills .left) =
        .ok [⟨⟨1⟩, 0⟩, ⟨⟨1⟩, 0⟩, ⟨⟨1⟩, 0⟩, ⟨⟨1⟩, 1⟩] ∧
      companyStore.count (departmentSkills .left) = .ok 4 ∧
      companyStore.select { departmentSkills .left with distinct := true } =
        .ok [⟨⟨1⟩, 0⟩, ⟨⟨1⟩, 1⟩] ∧
      companyStore.count { departmentSkills .left with distinct := true } = .ok 2 := by
  have expanded : companyStore.expand (departmentSkills .left) = .ok
      [⟨⟨⟨1⟩, 0⟩, [.row ⟨⟨2⟩, 0⟩, .element (.text "lean")]⟩,
        ⟨⟨⟨1⟩, 0⟩, [.row ⟨⟨2⟩, 0⟩, .element (.text "go")]⟩,
        ⟨⟨⟨1⟩, 0⟩, [.row ⟨⟨2⟩, 1⟩, .missing]⟩, ⟨⟨⟨1⟩, 1⟩, [.missing, .missing]⟩] := by
    decide +kernel
  have selected : companyStore.select (departmentSkills .left) =
      .ok [⟨⟨1⟩, 0⟩, ⟨⟨1⟩, 0⟩, ⟨⟨1⟩, 0⟩, ⟨⟨1⟩, 1⟩] := by
    decide +kernel
  have once : companyStore.select { departmentSkills .left with distinct := true } =
      .ok [⟨⟨1⟩, 0⟩, ⟨⟨1⟩, 1⟩] := by
    decide +kernel
  rcases expand_iff_nestedLoop_select_ordered companyStore (departmentSkills .left) with
    ⟨loops, answers⟩
  exact ⟨⟨_, expanded, (loops _).mp expanded, rfl⟩, selected, (answers _ selected).1, once,
    ((expand_iff_nestedLoop_select_ordered companyStore _).2 _ once).1⟩

end Store

end FilterQuery
