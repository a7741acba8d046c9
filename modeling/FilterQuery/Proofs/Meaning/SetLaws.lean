import FilterQuery.Proofs.Meaning.Landing

/-!
# Conjunctions and disjunctions of filters

A group of two filters joins the paths of both.  A choice for the group gives a choice for either
filter, so the group selects no row that the filters do not: none outside of both for a
conjunction, none outside of their union for a disjunction.  The converse needs a choice for one
filter to extend to the paths of the other: that is possible for a disjunction if every join finds
a target, and for a conjunction if no join finds more than one, so that there is nothing to choose.
-/

namespace FilterQuery

namespace Store

/-- Whether each join of a query finds targets of some number wherever it is evaluated: in every
tuple for the joins in front of it. -/
def JoinsFind (store : Store) (query : Query) (number : Nat → Prop) : Prop :=
  ∀ count join, query.joins[count]? = some join →
    ∀ tuples, store.expand { query with joins := query.joins.take count } = .ok tuples →
      ∀ tuple ∈ tuples, ∀ targets, store.targets join tuple = .ok targets → number targets.length

variable {store : Store} {query : Query} {number : Nat → Prop}

theorem joinsFind_iff :
    store.JoinsFind query number ↔ ∀ count < query.joins.length, ∀ join ∈ query.joins[count]?,
      ∀ tuples ∈ (store.expand { query with joins := query.joins.take count }).toOption,
        ∀ tuple ∈ tuples, ∀ targets ∈ (store.targets join tuple).toOption,
          number targets.length := by
  have ok_iff {ε α : Type} (outcome : Except ε α) (a : α) :
      a ∈ outcome.toOption ↔ outcome = .ok a := by
    cases outcome <;> simp [Except.toOption]
  simp only [ok_iff, Option.mem_def]
  constructor
  · exact fun find count _ => find count
  · intro find count join join_eq
    exact find count (List.getElem?_eq_some_iff.mp join_eq).1 join join_eq

instance [DecidablePred number] : Decidable (store.JoinsFind query number) :=
  decidable_of_iff _ joinsFind_iff.symm

theorem joinsFind_of_joins_eq_nil (none : query.joins = []) (number : Nat → Prop) :
    store.JoinsFind query number := by
  intro count join join_eq
  simp [none] at join_eq

end Store

namespace ObjectGraph

variable {graph : ObjectGraph} {query : Query} {choice other : Choice}
  {paths otherPaths : List (List String)}

/-! ## Choices for some of the joins -/

/-- A choice at some paths only. -/
def restrict (choice : Choice) (paths : List (List String)) : Choice :=
  fun path => if path ∈ paths then choice path else 0

theorem restrict_of_mem (choice : Choice) {path : List String} (member : path ∈ paths) :
    restrict choice paths path = choice path :=
  if_pos member

theorem restrict_eq_self (unset : ∀ path, path ∉ paths → choice path = 0) :
    restrict choice paths = choice := by
  funext path
  by_cases member : path ∈ paths
  · exact restrict_of_mem choice member
  · rw [restrict, if_neg member, unset path member]

section

variable (joined : query.Joined graph.metadata) (root_eq : query.root = graph.root.entity)

include joined root_eq

/-- A choice at the routes of the joins in front of a join decides its targets. -/
theorem targets_restrict {count : Nat} (inside : count < query.joins.length) {all : Nat}
    (below : count ≤ all) : graph.targets (restrict choice (query.routesTo all))
      (query.route (.join count)) = graph.targets choice (query.route (.join count)) := by
  apply targets_congr joined root_eq inside
  intro id earlier
  exact restrict_of_mem choice (Query.mem_routesTo_iff.mpr ⟨id, by omega, rfl⟩)

/-- A choice at more paths than those of the joins of a query is one for the query. -/
theorem Permits.restrict (permits : graph.Permits choice paths)
    (subset : ∀ path ∈ query.routesTo query.joins.length, path ∈ paths) :
    graph.Permits (restrict choice (query.routesTo query.joins.length))
      (query.routesTo query.joins.length) := by
  constructor
  · exact fun path absent => if_neg absent
  · intro path member
    rw [restrict_of_mem choice member]
    rcases Query.mem_routesTo_iff.mp member with ⟨id, inside, rfl⟩
    rw [targets_restrict joined root_eq inside (Nat.le_of_lt inside)]
    exact permits.lt_length _ (subset _ member)

/-- A choice of a target at one join after the other is one for all of them. -/
theorem permits_restrict_routesTo
    (chosen : ∀ count < query.joins.length,
      graph.Permits (restrict choice (query.routesTo count)) (query.routesTo count) →
        choice (query.route (.join count)) <
          (graph.targets choice (query.route (.join count))).length)
    {count : Nat} (inside : count ≤ query.joins.length) :
    graph.Permits (restrict choice (query.routesTo count)) (query.routesTo count) := by
  induction count with
  | zero => exact ⟨fun path absent => if_neg absent, by simp [Query.routesTo]⟩
  | succ count ih =>
      have before := ih (by omega)
      have unset := before.eq_zero _ (joined.route_not_mem_routesTo inside)
      have restrict_eq : restrict choice (query.routesTo (count + 1)) =
          Function.update (restrict choice (query.routesTo count)) (query.route (.join count))
            (choice (query.route (.join count))) := by
        funext path
        by_cases path_eq : path = query.route (.join count)
        · rw [path_eq, Function.update_self]
          exact restrict_of_mem choice (by simp [Query.routesTo_succ])
        · simp [ObjectGraph.restrict, Query.routesTo_succ, path_eq]
      rw [restrict_eq, permits_update_iff joined root_eq inside unset,
        targets_restrict joined root_eq inside le_rfl]
      exact ⟨before, chosen count inside before⟩

/-- A choice for some of the joins is one for all of them, if the others have targets. -/
theorem Permits.extend (permits : graph.Permits choice paths)
    (subset : ∀ path ∈ paths, path ∈ query.routesTo query.joins.length)
    (found : ∀ count < query.joins.length, ∀ choice, graph.Permits choice (query.routesTo count) →
      0 < (graph.targets choice (query.route (.join count))).length) :
    graph.Permits choice (query.routesTo query.joins.length) := by
  have restrict_eq : ObjectGraph.restrict choice (query.routesTo query.joins.length) = choice :=
    restrict_eq_self fun path absent => permits.eq_zero path (mt (subset path) absent)
  rw [← restrict_eq]
  refine permits_restrict_routesTo joined root_eq ?_ le_rfl
  intro count inside before
  by_cases member : query.route (.join count) ∈ paths
  · exact permits.lt_length _ member
  · have some_target := found count inside _ before
    rw [targets_restrict joined root_eq inside le_rfl] at some_target
    rw [permits.eq_zero _ member]
    exact some_target

/-- Where joins have at most one target, there is nothing to choose: two choices that together are
at the paths of all joins are both the choice of the first target everywhere. -/
theorem permits_zero (permits : graph.Permits choice paths)
    (permitsOther : graph.Permits other otherPaths)
    (divided : ∀ path ∈ query.routesTo query.joins.length, path ∈ paths ∨ path ∈ otherPaths)
    (single : ∀ count < query.joins.length, ∀ choice, graph.Permits choice (query.routesTo count) →
      (graph.targets choice (query.route (.join count))).length ≤ 1)
    {count : Nat} (inside : count ≤ query.joins.length) :
    graph.Permits (fun _ => 0) (query.routesTo count) ∧
      ∀ path ∈ query.routesTo count, choice path = 0 ∧ other path = 0 := by
  induction count with
  | zero => exact ⟨⟨fun _ _ => rfl, by simp [Query.routesTo]⟩, by simp [Query.routesTo]⟩
  | succ count ih =>
      rcases ih (by omega) with ⟨before, unset⟩
      have few := single count inside _ before
      have zero_of_permits {choice : Choice} {paths : List (List String)}
          (permits : graph.Permits choice paths)
          (unset : ∀ path ∈ query.routesTo count, choice path = 0) :
          choice (query.route (.join count)) = 0 ∧ (query.route (.join count) ∈ paths →
            0 < (graph.targets (fun _ => 0) (query.route (.join count))).length) := by
        have targets_eq : graph.targets choice (query.route (.join count)) =
            graph.targets (fun _ => 0) (query.route (.join count)) :=
          targets_congr joined root_eq inside fun id below =>
            unset _ (Query.mem_routesTo_iff.mpr ⟨id, below, rfl⟩)
        by_cases member : query.route (.join count) ∈ paths
        · have chosen := permits.lt_length _ member
          rw [targets_eq] at chosen
          exact ⟨by omega, fun _ => by omega⟩
        · exact ⟨permits.eq_zero _ member, fun member' => absurd member' member⟩
      rcases zero_of_permits permits fun path member => (unset path member).1 with ⟨zero, found⟩
      rcases zero_of_permits permitsOther fun path member => (unset path member).2 with
        ⟨zeroOther, foundOther⟩
      constructor
      · have update_eq : Function.update (fun _ => 0 : Choice) (query.route (.join count)) 0 =
            fun _ => 0 := Function.update_eq_self _ _
        have last : query.route (.join count) ∈ query.routesTo query.joins.length :=
          Query.mem_routesTo_iff.mpr ⟨count, inside, rfl⟩
        rw [← update_eq, permits_update_iff joined root_eq inside rfl]
        exact ⟨before, (divided _ last).elim found foundOther⟩
      · intro path member
        rw [Query.routesTo_succ, List.mem_append, List.mem_singleton] at member
        rcases member with member | rfl
        · exact unset path member
        · exact ⟨zero, zeroOther⟩

end

end ObjectGraph

/-! ## Groups of two filters -/

theorem Scope.mem_joinedPathsOf_group_iff (scope : Scope) {symbol : String} {first second : Filter}
    {path : List String} : path ∈ scope.joinedPathsOf (.logical symbol [first, second]) ↔
      path ∈ scope.joinedPathsOf first ∨ path ∈ scope.joinedPathsOf second := by
  simp [joinedPathsOf, Filter.comparisons, Filter.comparisonsOfChildren]

namespace QueryCompiler

open ObjectGraph

variable {compiler : QueryCompiler} {store : Store} {filter first second : Filter}
  {query firstQuery secondQuery : Query} {table : Table} {row : Nat} {symbol : String}

/-- The number of targets that a join finds is that at its route, whatever has been chosen for the
joins in front of it. -/
theorem Lands.number_targets (lands : compiler.Lands filter query)
    (conforms : store.Conforms compiler.metadata compiler.root)
    (table_eq : store.get? compiler.root = some table) {number : Nat → Prop}
    (find : store.JoinsFind query number) (inside : row < table.rows.length) {count : Nat}
    (below : count < query.joins.length) (choice : Choice)
    (permits : (compiler.graph store row).Permits choice (query.routesTo count)) :
    number ((compiler.graph store row).targets choice (query.route (.join count))).length := by
  have covers := lands.covers conforms ⟨table, table_eq, inside⟩
  have joins_eq : query.joins = query.joins.take count ++ query.joins.drop count := by simp
  have length_eq : (query.joins.take count).length = count := by
    simp [Nat.min_eq_left (Nat.le_of_lt below)]
  rw [← lands.root_eq] at conforms table_eq
  have expand_eq := conforms.expand_front_eq_flatMap lands.joined lands.inner table_eq joins_eq
  have join_eq := List.getElem?_eq_getElem below
  refine find count _ join_eq _ expand_eq
    ((compiler.graph store row).tuple choice (query.routesTo count)) ?_ _
    (covers.targets_tuple join_eq permits)
  rw [length_eq, lands.root_eq]
  exact List.mem_flatMap.mpr ⟨row, List.mem_range.mpr inside, List.mem_map_of_mem
    ((mem_choices_iff covers.joined covers.root_eq (Nat.le_of_lt below)).mpr permits)⟩

/-- A choice for more paths than those of a filter that holds with it is a way to match. -/
theorem Lands.nonempty_matchingAt (lands : compiler.Lands filter query) {choice : Choice}
    {paths : List (List String)} (permits : (compiler.graph store row).Permits choice paths)
    (subset : ∀ path ∈ compiler.scope.joinedPathsOf filter, path ∈ paths)
    (holds : filter.evaluate ((compiler.graph store row).acceptsAt choice compiler.scope)) :
    ((compiler.graph store row).matchingAt compiler.scope filter).Nonempty := by
  have same (path : List String) : path ∈ query.routesTo query.joins.length ↔
      path ∈ compiler.scope.joinedPathsOf filter :=
    Query.mem_routesTo_length_iff.trans (lands.paths path)
  refine ⟨restrict choice (query.routesTo query.joins.length), ?_, ?_⟩
  · exact (permits_congr same).mp (permits.restrict lands.joined lands.root_eq
      fun path member => subset path ((same path).mp member))
  · rw [← holds]
    apply evaluate_acceptsAt_congr rfl rfl rfl
    exact fun path member => restrict_of_mem choice ((same path).mpr member)

section

variable (firstLands : compiler.Lands first firstQuery)
  (secondLands : compiler.Lands second secondQuery)

include firstLands secondLands

/-- Where a conjunction matches, both filters do. -/
theorem nonempty_of_conjunction (meaning : LogicalOperator.parse? symbol = some .and)
    (matches_group : ((compiler.graph store row).matchingAt compiler.scope
      (.logical symbol [first, second])).Nonempty) :
    ((compiler.graph store row).matchingAt compiler.scope first).Nonempty ∧
      ((compiler.graph store row).matchingAt compiler.scope second).Nonempty := by
  rcases matches_group with ⟨choice, permits, holds⟩
  rw [Filter.evaluate_logical meaning] at holds
  obtain ⟨firstHolds, secondHolds⟩ := by simpa [Filter.decides] using holds
  exact ⟨firstLands.nonempty_matchingAt permits
      (fun path member => compiler.scope.mem_joinedPathsOf_group_iff.mpr (.inl member)) firstHolds,
    secondLands.nonempty_matchingAt permits
      (fun path member => compiler.scope.mem_joinedPathsOf_group_iff.mpr (.inr member))
      secondHolds⟩

/-- Where a disjunction matches, one of the filters does. -/
theorem nonempty_of_disjunction (meaning : LogicalOperator.parse? symbol = some .or)
    (matches_group : ((compiler.graph store row).matchingAt compiler.scope
      (.logical symbol [first, second])).Nonempty) :
    ((compiler.graph store row).matchingAt compiler.scope first).Nonempty ∨
      ((compiler.graph store row).matchingAt compiler.scope second).Nonempty := by
  rcases matches_group with ⟨choice, permits, holds⟩
  rw [Filter.evaluate_logical meaning] at holds
  rcases (by simpa [Filter.decides] using holds) with firstHolds | secondHolds
  · exact .inl (firstLands.nonempty_matchingAt permits
      (fun path member => compiler.scope.mem_joinedPathsOf_group_iff.mpr (.inl member)) firstHolds)
  · exact .inr (secondLands.nonempty_matchingAt permits
      (fun path member => compiler.scope.mem_joinedPathsOf_group_iff.mpr (.inr member))
      secondHolds)

end

section

variable (lands : compiler.Lands (.logical symbol [first, second]) query)
  (conforms : store.Conforms compiler.metadata compiler.root)
  (table_eq : store.get? compiler.root = some table) (inside : row < table.rows.length)

include lands conforms table_eq inside

/-- Where one of two filters matches, so does their disjunction, if its joins find targets. -/
theorem nonempty_disjunction (meaning : LogicalOperator.parse? symbol = some .or)
    (find : store.JoinsFind query (0 < ·))
    (matches_one : ((compiler.graph store row).matchingAt compiler.scope first).Nonempty ∨
      ((compiler.graph store row).matchingAt compiler.scope second).Nonempty) :
    ((compiler.graph store row).matchingAt compiler.scope
      (.logical symbol [first, second])).Nonempty := by
  have same (path : List String) : path ∈ query.routesTo query.joins.length ↔
      path ∈ compiler.scope.joinedPathsOf (.logical symbol [first, second]) :=
    Query.mem_routesTo_length_iff.trans (lands.paths path)
  have found (count : Nat) (below : count < query.joins.length) (choice : Choice)
      (permits : (compiler.graph store row).Permits choice (query.routesTo count)) :=
    lands.number_targets conforms table_eq find inside below choice permits
  have extended {choice : Choice} {paths : List (List String)}
      (permits : (compiler.graph store row).Permits choice paths)
      (subset : ∀ path ∈ paths, path ∈ compiler.scope.joinedPathsOf first ∨
        path ∈ compiler.scope.joinedPathsOf second) :
      (compiler.graph store row).Permits choice
        (compiler.scope.joinedPathsOf (.logical symbol [first, second])) :=
    (permits_congr same).mp (permits.extend lands.joined lands.root_eq
      (fun path member => (same path).mpr
        (compiler.scope.mem_joinedPathsOf_group_iff.mpr (subset path member))) found)
  rcases matches_one with ⟨choice, permits, holds⟩ | ⟨choice, permits, holds⟩
  · refine ⟨choice, extended permits fun _ => .inl, ?_⟩
    simp [Filter.evaluate_logical meaning, Filter.decides, holds]
  · refine ⟨choice, extended permits fun _ => .inr, ?_⟩
    simp [Filter.evaluate_logical meaning, Filter.decides, holds]

/-- Where two filters match, so does their conjunction, if its joins find one target at most. -/
theorem nonempty_conjunction (meaning : LogicalOperator.parse? symbol = some .and)
    (find : store.JoinsFind query (· ≤ 1))
    (matches_first : ((compiler.graph store row).matchingAt compiler.scope first).Nonempty)
    (matches_second : ((compiler.graph store row).matchingAt compiler.scope second).Nonempty) :
    ((compiler.graph store row).matchingAt compiler.scope
      (.logical symbol [first, second])).Nonempty := by
  have same (path : List String) : path ∈ query.routesTo query.joins.length ↔
      path ∈ compiler.scope.joinedPathsOf first ∨ path ∈ compiler.scope.joinedPathsOf second :=
    (Query.mem_routesTo_length_iff.trans (lands.paths path)).trans
      compiler.scope.mem_joinedPathsOf_group_iff
  rcases matches_first with ⟨choice, permits, holds⟩
  rcases matches_second with ⟨other, permitsOther, holdsOther⟩
  rcases permits_zero lands.joined lands.root_eq permits permitsOther
    (fun path member => (same path).mp member)
    (fun count below choice permits =>
      lands.number_targets conforms table_eq find inside below choice permits) le_rfl with
    ⟨permitsZero, unset⟩
  -- both choices are nothing at the joins, and nothing elsewhere
  have choice_eq : choice = fun _ => 0 := by
    funext path
    by_cases member : path ∈ query.routesTo query.joins.length
    · exact (unset path member).1
    · exact permits.eq_zero path fun first => member ((same path).mpr (.inl first))
  have other_eq : other = fun _ => 0 := by
    funext path
    by_cases member : path ∈ query.routesTo query.joins.length
    · exact (unset path member).2
    · exact permitsOther.eq_zero path fun second => member ((same path).mpr (.inr second))
  rw [choice_eq] at holds
  rw [other_eq] at holdsOther
  refine ⟨fun _ => 0, ?_, ?_⟩
  · exact (permits_congr fun path => (same path).trans
      compiler.scope.mem_joinedPathsOf_group_iff.symm).mp permitsZero
  · simp [Filter.evaluate_logical meaning, Filter.decides, holds, holdsOther]

end

/-- Filters that need no joins make none together. -/
theorem Lands.joins_eq_nil (lands : compiler.Lands (.logical symbol [first, second]) query)
    (firstLands : compiler.Lands first firstQuery) (secondLands : compiler.Lands second secondQuery)
    (firstPlain : firstQuery.joins = []) (secondPlain : secondQuery.joins = []) :
    query.joins = [] := by
  have none (path : List String) : path ∉ routesOf query.joins := by
    rw [lands.paths, compiler.scope.mem_joinedPathsOf_group_iff, ← firstLands.paths,
      ← secondLands.paths, firstPlain, secondPlain]
    simp
  rw [← List.length_eq_zero_iff, ← length_routesOf, List.length_eq_zero_iff]
  exact List.eq_nil_iff_forall_not_mem.mpr none

/-- A group of filters that compile compiles. -/
theorem exists_compile_group (builtIn : compiler.configuration.tools.strategy = none)
    (firstCompiled : compiler.compile first = .ok firstQuery)
    (secondCompiled : compiler.compile second = .ok secondQuery) {operator : LogicalOperator}
    (meaning : LogicalOperator.parse? symbol = some operator) :
    ∃ query, compiler.compile (.logical symbol [first, second]) = .ok query := by
  rcases (exists_compile_eq_ok_iff builtIn).mp ⟨_, firstCompiled⟩ with ⟨regular, compiles⟩
  rcases (exists_compile_eq_ok_iff builtIn).mp ⟨_, secondCompiled⟩ with ⟨regular', compiles'⟩
  rw [exists_compile_eq_ok_iff builtIn]
  refine ⟨.logical meaning (by simp [regular, regular']), ?_⟩
  simp only [Filter.comparisons, Filter.comparisonsOfChildren, List.append_nil]
  exact List.forall_mem_append.mpr ⟨compiles, compiles'⟩

/-- The rows that a conjunction of two filters selects are selected by both, and those that a
disjunction selects by one of them.  Conversely a disjunction selects all rows that one of the
filters selects if each of its joins finds a target wherever it is evaluated, and a conjunction
all rows that both select if none of its joins finds more than one; so either does if the filters
make no joins. -/
theorem select_groups_of_compile (builtIn : compiler.configuration.tools.strategy = none)
    (firstCompiled : compiler.compile first = .ok firstQuery)
    (secondCompiled : compiler.compile second = .ok secondQuery) {conjunction disjunction : String}
    (isAnd : LogicalOperator.parse? conjunction = some .and)
    (isOr : LogicalOperator.parse? disjunction = some .or) :
    ∃ both either, compiler.compile (.logical conjunction [first, second]) = .ok both ∧
      compiler.compile (.logical disjunction [first, second]) = .ok either ∧
      ∀ store : Store, store.Conforms compiler.metadata compiler.root →
        ∃ firstRows secondRows bothRows eitherRows,
          store.select firstQuery = .ok firstRows ∧ store.select secondQuery = .ok secondRows ∧
          store.select both = .ok bothRows ∧ store.select either = .ok eitherRows ∧
          (∀ row ∈ bothRows, row ∈ firstRows ∧ row ∈ secondRows) ∧
          (∀ row ∈ eitherRows, row ∈ firstRows ∨ row ∈ secondRows) ∧
          (store.JoinsFind either (0 < ·) →
            ∀ row, row ∈ eitherRows ↔ row ∈ firstRows ∨ row ∈ secondRows) ∧
          (store.JoinsFind both (· ≤ 1) →
            ∀ row, row ∈ bothRows ↔ row ∈ firstRows ∧ row ∈ secondRows) ∧
          (firstQuery.joins = [] → secondQuery.joins = [] → ∀ row,
            (row ∈ eitherRows ↔ row ∈ firstRows ∨ row ∈ secondRows) ∧
            (row ∈ bothRows ↔ row ∈ firstRows ∧ row ∈ secondRows)) := by
  obtain ⟨both, bothCompiled⟩ := exists_compile_group builtIn firstCompiled secondCompiled isAnd
  obtain ⟨either, eitherCompiled⟩ := exists_compile_group builtIn firstCompiled secondCompiled isOr
  refine ⟨both, either, bothCompiled, eitherCompiled, ?_⟩
  intro store conforms
  rcases conforms compiler.root (.inl rfl) with ⟨table, table_eq, -⟩
  have firstLands := lands_of_compile_eq_ok builtIn firstCompiled
  have secondLands := lands_of_compile_eq_ok builtIn secondCompiled
  have bothLands := lands_of_compile_eq_ok builtIn bothCompiled
  have eitherLands := lands_of_compile_eq_ok builtIn eitherCompiled
  rcases firstLands.exists_select conforms table_eq with ⟨firstRows, firstSelected, mem_first⟩
  rcases secondLands.exists_select conforms table_eq with ⟨secondRows, secondSelected, mem_second⟩
  rcases bothLands.exists_select conforms table_eq with ⟨bothRows, bothSelected, mem_both⟩
  rcases eitherLands.exists_select conforms table_eq with ⟨eitherRows, eitherSelected, mem_either⟩
  have of_both (found : RowRef) (member : found ∈ bothRows) :
      found ∈ firstRows ∧ found ∈ secondRows := by
    rcases (mem_both found).mp member with ⟨row, inside, row_eq, matches_both⟩
    obtain ⟨matches_first, matches_second⟩ :=
      nonempty_of_conjunction firstLands secondLands isAnd matches_both
    exact ⟨(mem_first found).mpr ⟨row, inside, row_eq, matches_first⟩,
      (mem_second found).mpr ⟨row, inside, row_eq, matches_second⟩⟩
  have of_either (found : RowRef) (member : found ∈ eitherRows) :
      found ∈ firstRows ∨ found ∈ secondRows := by
    rcases (mem_either found).mp member with ⟨row, inside, row_eq, matches_either⟩
    apply (nonempty_of_disjunction firstLands secondLands isOr matches_either).imp
    · exact fun matches_first => (mem_first found).mpr ⟨row, inside, row_eq, matches_first⟩
    · exact fun matches_second => (mem_second found).mpr ⟨row, inside, row_eq, matches_second⟩
  have mem_either_iff (find : store.JoinsFind either (0 < ·)) (found : RowRef) :
      found ∈ eitherRows ↔ found ∈ firstRows ∨ found ∈ secondRows := by
    refine ⟨of_either found, ?_⟩
    rw [mem_first, mem_second, mem_either]
    rintro (⟨row, inside, row_eq, matches_first⟩ | ⟨row, inside, row_eq, matches_second⟩)
    · exact ⟨row, inside, row_eq, nonempty_disjunction eitherLands conforms table_eq inside isOr
        find (.inl matches_first)⟩
    · exact ⟨row, inside, row_eq, nonempty_disjunction eitherLands conforms table_eq inside isOr
        find (.inr matches_second)⟩
  have mem_both_iff (find : store.JoinsFind both (· ≤ 1)) (found : RowRef) :
      found ∈ bothRows ↔ found ∈ firstRows ∧ found ∈ secondRows := by
    refine ⟨of_both found, ?_⟩
    rw [mem_first, mem_second, mem_both]
    rintro ⟨⟨row, inside, row_eq, matches_first⟩, ⟨row', -, row_eq', matches_second⟩⟩
    obtain rfl : row = row' := congrArg RowRef.row (row_eq.symm.trans row_eq')
    exact ⟨row, inside, row_eq, nonempty_conjunction bothLands conforms table_eq inside isAnd find
      matches_first matches_second⟩
  refine ⟨firstRows, secondRows, bothRows, eitherRows, firstSelected, secondSelected, bothSelected,
    eitherSelected, of_both, of_either, mem_either_iff, mem_both_iff, ?_⟩
  intro firstPlain secondPlain found
  constructor
  · exact mem_either_iff (Store.joinsFind_of_joins_eq_nil
      (eitherLands.joins_eq_nil firstLands secondLands firstPlain secondPlain) _) found
  · exact mem_both_iff (Store.joinsFind_of_joins_eq_nil
      (bothLands.joins_eq_nil firstLands secondLands firstPlain secondPlain) _) found

/-- A department with one member, who has one skill. -/
def teamStore : Store :=
  [(⟨1⟩, { identifier := "id"
           rows := [[("id", .value (.int 1)), ("members", .references [⟨⟨2⟩, 0⟩])]] }),
   (⟨2⟩, { identifier := "id", rows := [[("id", .value (.int 1)), ("skills", .elements [.text "lean"])]] })]

theorem teamStore_conforms : teamStore.Conforms company.metadata ⟨1⟩ := by
  apply company_conforms rfl _ rfl
  · constructor
    · rintro name ⟨⟩
      rfl
    · intro record member name kind datum property field
      have declared := mem_of_company_property property
      simp at declared member
      subst member
      rcases declared with ⟨rfl, rfl⟩ | ⟨rfl, rfl⟩ | ⟨rfl, rfl⟩ <;> cases field <;> constructor
  · constructor
    · rintro name ⟨⟩
      rfl
    · intro record member name kind datum property field
      have declared := mem_of_company_property property
      simp at declared member
      subst member
      rcases declared with ⟨rfl, rfl⟩ | ⟨rfl, rfl⟩ <;> cases field
      · constructor
      · constructor
        simp only [List.mem_singleton, forall_eq]
        exact ⟨rfl, _, rfl, Nat.one_pos⟩

theorem select_groups_of_compile_team :
    let compiler := QueryCompiler.select company.metadata ⟨1⟩
    let skilled : Filter := .comparison ⟨"members.skills", "==", ["lean"]⟩
    let chief : Filter := .comparison ⟨"members.id", "==", ["1"]⟩
    ∃ both either bothRows eitherRows,
      compiler.compile (.logical "and" [skilled, chief]) = .ok both ∧
      compiler.compile (.logical "or" [skilled, chief]) = .ok either ∧
      teamStore.JoinsFind both (· ≤ 1) ∧ teamStore.JoinsFind either (0 < ·) ∧
      teamStore.select both = .ok bothRows ∧ teamStore.select either = .ok eitherRows ∧
      (∀ row, row ∈ bothRows ↔ row = ⟨⟨1⟩, 0⟩) ∧ ∀ row, row ∈ eitherRows ↔ row = ⟨⟨1⟩, 0⟩ := by
  intro compiler skilled chief
  have answer_eq (filter : Filter) (member : filter ∈ [skilled, chief]) :
      (compiler.compile filter).toOption.map (fun query => (teamStore.select query).toOption) =
        some (some [⟨⟨1⟩, 0⟩]) := by
    simp only [List.mem_cons, List.not_mem_nil, or_false] at member
    rcases member with rfl | rfl <;> decide +kernel
  have exists_query (filter : Filter) (member : filter ∈ [skilled, chief]) :
      ∃ query, compiler.compile filter = .ok query ∧
        teamStore.select query = .ok [⟨⟨1⟩, 0⟩] := by
    have answered := answer_eq filter member
    cases compiled : compiler.compile filter with
    | error stop =>
        rw [compiled] at answered
        cases answered
    | ok query =>
        rw [compiled] at answered
        have rows_eq : (teamStore.select query).toOption = some [⟨⟨1⟩, 0⟩] :=
          Option.some.inj answered
        cases selected : teamStore.select query with
        | error error =>
            rw [selected] at rows_eq
            cases rows_eq
        | ok rows =>
            rw [selected] at rows_eq
            obtain rfl : rows = [⟨⟨1⟩, 0⟩] := Option.some.inj rows_eq
            exact ⟨query, rfl, selected⟩
  have finds_both : (compiler.compile (.logical "and" [skilled, chief])).toOption.map
      (fun query => decide (teamStore.JoinsFind query (· ≤ 1))) = some true := by decide +kernel
  have finds_either : (compiler.compile (.logical "or" [skilled, chief])).toOption.map
      (fun query => decide (teamStore.JoinsFind query (0 < ·))) = some true := by decide +kernel
  obtain ⟨skilledQuery, skilledCompiled, skilledSelected⟩ := exists_query skilled (by simp)
  obtain ⟨chiefQuery, chiefCompiled, chiefSelected⟩ := exists_query chief (by simp)
  obtain ⟨both, either, bothCompiled, eitherCompiled, answers⟩ :=
    select_groups_of_compile rfl skilledCompiled chiefCompiled
      (by decide +kernel : LogicalOperator.parse? "and" = some .and)
      (by decide +kernel : LogicalOperator.parse? "or" = some .or)
  obtain ⟨skilledRows, chiefRows, bothRows, eitherRows, skilled_eq, chief_eq, both_eq, either_eq,
    -, -, mem_either_iff, mem_both_iff, -⟩ := answers teamStore teamStore_conforms
  obtain rfl : [⟨⟨1⟩, 0⟩] = skilledRows := Except.ok.inj (skilledSelected.symm.trans skilled_eq)
  obtain rfl : [⟨⟨1⟩, 0⟩] = chiefRows := Except.ok.inj (chiefSelected.symm.trans chief_eq)
  rw [bothCompiled] at finds_both
  rw [eitherCompiled] at finds_either
  have find_both := of_decide_eq_true (Option.some.inj finds_both)
  have find_either := of_decide_eq_true (Option.some.inj finds_either)
  exact ⟨both, either, bothRows, eitherRows, bothCompiled, eitherCompiled, find_both, find_either,
    both_eq, either_eq, fun row => by simpa using mem_both_iff find_both row,
    fun row => by simpa using mem_either_iff find_either row⟩

end QueryCompiler

end FilterQuery
