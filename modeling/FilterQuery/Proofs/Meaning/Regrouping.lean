import FilterQuery.Proofs.Meaning.Landing
import Mathlib.Logic.Relation

/-!
# Regrouping filters

The order of the children of a group decides in which order joins are made, and so their numbers
and the order of an execution's tuples; a child that is there twice is compiled twice.  None of
this bears on what is selected: what counts is which comparisons there are and when the groups
hold.  So the children of groups can be permuted and repeated, a group can be replaced by its only
child, and a group within a group of the same operator can be dissolved.
-/

namespace FilterQuery

namespace Filter

/-! ## Changes of groups -/

/-- The changes that can be made to the groups of a filter. -/
inductive Regroups : Filter → Filter → Prop
  | permute {symbol : String} {children others : List Filter} (order : children.Perm others) :
      Regroups (.logical symbol children) (.logical symbol others)
  | duplicate {symbol : String} {child : Filter} {front back : List Filter}
      (member : child ∈ front ++ back) :
      Regroups (.logical symbol (front ++ back)) (.logical symbol (front ++ child :: back))
  | unwrap {symbol : String} {child : Filter} : Regroups (.logical symbol [child]) child
  | splice {symbol inner : String} {front children back : List Filter}
      (same : LogicalOperator.parse? inner = LogicalOperator.parse? symbol) :
      Regroups (.logical symbol (front ++ .logical inner children :: back))
        (.logical symbol (front ++ children ++ back))
  | inside {symbol : String} {child other : Filter} {front back : List Filter}
      (regroups : Regroups child other) :
      Regroups (.logical symbol (front ++ child :: back))
        (.logical symbol (front ++ other :: back))

/-- A filter with the comparisons of another one, whose groups have operators if those of the
other one do, and which then holds whenever the other one does. -/
structure Matches (filter other : Filter) : Prop where
  mem_comparisons_iff : ∀ node, node ∈ filter.comparisons ↔ node ∈ other.comparisons
  regular : filter.Regular → other.Regular
  evaluate_eq : filter.Regular → ∀ truth, filter.evaluate truth = other.evaluate truth

theorem Matches.refl (filter : Filter) : filter.Matches filter :=
  ⟨fun _ => Iff.rfl, id, fun _ _ => rfl⟩

theorem Matches.trans {filter middle other : Filter} (first : filter.Matches middle)
    (second : middle.Matches other) : filter.Matches other :=
  ⟨fun node => (first.mem_comparisons_iff node).trans (second.mem_comparisons_iff node),
    second.regular ∘ first.regular,
    fun regular truth =>
      (first.evaluate_eq regular truth).trans (second.evaluate_eq (first.regular regular) truth)⟩

/-! ## Groups -/

variable {symbol : String} {operator : LogicalOperator} {children others : List Filter}

theorem mem_comparisons_logical_iff {node : Comparison} :
    node ∈ (logical symbol children).comparisons ↔
      ∃ child ∈ children, node ∈ child.comparisons := by
  rw [comparisons, comparisonsOfChildren_eq_flatMap, List.mem_flatMap]

theorem regular_logical_iff :
    (logical symbol children).Regular ↔
      (∃ operator, LogicalOperator.parse? symbol = some operator) ∧
        ∀ child ∈ children, child.Regular := by
  constructor
  · rintro (_ | ⟨meaning, each⟩)
    exact ⟨⟨_, meaning⟩, each⟩
  · rintro ⟨⟨operator, meaning⟩, each⟩
    exact .logical meaning each

/-- Only which children a group has matters. -/
theorem matches_of_mem_iff (same : ∀ child, child ∈ children ↔ child ∈ others) :
    (logical symbol children).Matches (logical symbol others) := by
  constructor
  · intro node
    simp only [mem_comparisons_logical_iff, same]
  · simp only [regular_logical_iff, same]
    exact id
  · intro regular truth
    rcases regular_logical_iff.mp regular with ⟨⟨operator, meaning⟩, -⟩
    rw [evaluate_logical meaning, evaluate_logical meaning, Bool.eq_iff_iff]
    cases operator <;> simp [decides, same]

/-- A child can be replaced by one that matches it. -/
theorem Matches.inside {child other : Filter} (same : child.Matches other)
    (front back : List Filter) :
    (logical symbol (front ++ child :: back)).Matches (logical symbol (front ++ other :: back)) := by
  constructor
  · intro node
    simp [mem_comparisons_logical_iff, or_and_right, exists_or, same.mem_comparisons_iff]
  · simp only [regular_logical_iff, List.forall_mem_append, List.forall_mem_cons]
    rintro ⟨meaning, before, regular, after⟩
    exact ⟨meaning, before, same.regular regular, after⟩
  · intro regular truth
    rcases regular_logical_iff.mp regular with ⟨⟨operator, meaning⟩, each⟩
    have evaluate_eq := same.evaluate_eq (each child (by simp)) truth
    rw [evaluate_logical meaning, evaluate_logical meaning]
    cases operator <;> simp [decides, evaluate_eq]

/-- A group with one child is no more than the child. -/
theorem matches_unwrap (symbol : String) (child : Filter) : (logical symbol [child]).Matches child := by
  constructor
  · intro node
    simp [mem_comparisons_logical_iff]
  · intro regular
    exact (regular_logical_iff.mp regular).2 child (by simp)
  · intro regular truth
    rcases regular_logical_iff.mp regular with ⟨⟨operator, meaning⟩, -⟩
    rw [evaluate_logical meaning]
    cases operator <;> simp [decides]

/-- A group of the same operator as the one around it can be dissolved. -/
theorem matches_splice {inner : String}
    (same : LogicalOperator.parse? inner = LogicalOperator.parse? symbol)
    (front children back : List Filter) :
    (logical symbol (front ++ logical inner children :: back)).Matches
      (logical symbol (front ++ children ++ back)) := by
  constructor
  · intro node
    simp [mem_comparisons_logical_iff, or_and_right, exists_or]
  · simp only [regular_logical_iff, List.forall_mem_append, List.forall_mem_cons]
    rintro ⟨meaning, before, ⟨-, within⟩, after⟩
    exact ⟨meaning, ⟨before, within⟩, after⟩
  · intro regular truth
    rcases regular_logical_iff.mp regular with ⟨⟨operator, meaning⟩, -⟩
    have inner_eq := evaluate_logical (same.trans meaning) truth children
    rw [evaluate_logical meaning, evaluate_logical meaning]
    cases operator <;> simp [decides, inner_eq]

/-- Every change of groups keeps what a filter stands for. -/
theorem Regroups.matches {filter other : Filter} (regroups : filter.Regroups other) :
    filter.Matches other := by
  induction regroups with
  | permute order => exact matches_of_mem_iff fun _ => order.mem_iff
  | @duplicate _ child front back member =>
      apply matches_of_mem_iff
      intro found
      simp only [List.mem_append, List.mem_cons] at member ⊢
      constructor
      · exact Or.imp_right .inr
      · rintro (before | rfl | after)
        · exact .inl before
        · exact member
        · exact .inr after
  | unwrap => exact matches_unwrap _ _
  | splice same => exact matches_splice same _ _ _
  | inside _ ih => exact ih.inside _ _

theorem matches_of_regroups {filter other : Filter}
    (regroups : Relation.ReflTransGen Regroups filter other) : filter.Matches other := by
  induction regroups with
  | refl => exact .refl filter
  | tail _ last ih => exact ih.trans last.matches

end Filter

/-! ## Compiled queries -/

namespace QueryCompiler

variable {compiler : QueryCompiler} {store : Store} {filter other : Filter} {query : Query}

/-- Filters that match select the same rows, as often. -/
theorem rowsOf_eq_of_matches (same : filter.Matches other) (regular : filter.Regular)
    (table : Table) : compiler.rowsOf store table filter = compiler.rowsOf store table other := by
  have same_paths (path : List String) : path ∈ compiler.scope.joinedPathsOf filter ↔
      path ∈ compiler.scope.joinedPathsOf other := by
    simp only [Scope.joinedPathsOf, List.mem_flatMap, same.mem_comparisons_iff]
  have matching_eq (row : Nat) : (compiler.graph store row).matchingAt compiler.scope filter =
      (compiler.graph store row).matchingAt compiler.scope other := by
    ext choice
    exact and_congr (ObjectGraph.permits_congr same_paths)
      (by rw [same.evaluate_eq regular])
  simp only [rowsOf, matching_eq]

/-- However the groups of a filter that compiles are changed, the filter still compiles, and every
store that conforms to the metadata selects the same rows: in the same order, as often, and each
row once if that is asked for. -/
theorem select_eq_of_regroups (builtIn : compiler.configuration.tools.strategy = none)
    (compiled : compiler.compile filter = .ok query)
    (regroups : Relation.ReflTransGen Filter.Regroups filter other) :
    ∃ regrouped, compiler.compile other = .ok regrouped ∧
      regrouped.distinct = query.distinct ∧
      ∀ store : Store, store.Conforms compiler.metadata compiler.root → ∀ distinct, ∃ rows,
        store.select { query with distinct } = .ok rows ∧
        store.select { regrouped with distinct } = .ok rows ∧
        store.count { query with distinct } = .ok rows.length ∧
        store.count { regrouped with distinct } = .ok rows.length := by
  have same := Filter.matches_of_regroups regroups
  rcases (exists_compile_eq_ok_iff builtIn).mp ⟨query, compiled⟩ with ⟨regular, compiles⟩
  obtain ⟨regrouped, compiled_other⟩ := (exists_compile_eq_ok_iff builtIn).mpr
    ⟨same.regular regular, fun node member =>
      compiles node ((same.mem_comparisons_iff node).mpr member)⟩
  have lands := lands_of_compile_eq_ok builtIn compiled
  have lands_other := lands_of_compile_eq_ok builtIn compiled_other
  refine ⟨regrouped, compiled_other, lands_other.distinct_eq.trans lands.distinct_eq.symm, ?_⟩
  intro store conforms distinct
  rcases conforms compiler.root (.inl rfl) with ⟨table, table_eq, -⟩
  have selected := lands.select_eq conforms table_eq distinct
  have selected_other := lands_other.select_eq conforms table_eq distinct
  rw [← rowsOf_eq_of_matches same regular] at selected_other
  refine ⟨_, selected, selected_other, ?_, ?_⟩
  · rw [Store.count, selected]
    rfl
  · rw [Store.count, selected_other]
    rfl

theorem select_eq_of_regroups_company :
    let compiler := QueryCompiler.select company.metadata ⟨1⟩
    let skilled : Filter := .comparison ⟨"members.skills", "==", ["lean"]⟩
    let first : Filter := .comparison ⟨"id", "=lt=", ["2"]⟩
    ∃ query regrouped, compiler.compile (.group .and [skilled, .logical "AND" [first]]) = .ok query ∧
      compiler.compile (.group .and [first, skilled]) = .ok regrouped ∧
      companyStore.select query = .ok [⟨⟨1⟩, 0⟩] ∧
      companyStore.select regrouped = .ok [⟨⟨1⟩, 0⟩] := by
  intro compiler skilled first
  have spliced : Filter.Regroups (.group .and [skilled, .logical "AND" [first]])
      (.group .and [skilled, first]) := by
    have same : LogicalOperator.parse? "AND" = LogicalOperator.parse? LogicalOperator.and.symbol := by
      decide +kernel
    exact @Filter.Regroups.splice LogicalOperator.and.symbol "AND" [skilled] [first] [] same
  have permuted : Filter.Regroups (.group .and [skilled, first]) (.group .and [first, skilled]) :=
    .permute (.swap first skilled [])
  have answer_eq : (compiler.compile (.group .and [skilled, .logical "AND" [first]])).toOption.map
      (fun query => (companyStore.select query).toOption) = some (some [⟨⟨1⟩, 0⟩]) := by
    decide +kernel
  cases compiled : compiler.compile (.group .and [skilled, .logical "AND" [first]]) with
  | error stop =>
      rw [compiled] at answer_eq
      cases answer_eq
  | ok query =>
      rw [compiled] at answer_eq
      have rows_eq : (companyStore.select query).toOption = some [⟨⟨1⟩, 0⟩] :=
        Option.some.inj answer_eq
      obtain ⟨regrouped, compiled_regrouped, distinct_regrouped, selects⟩ :=
        select_eq_of_regroups rfl compiled (.tail (.single spliced) permuted)
      obtain ⟨rows, selected, selected_regrouped, -, -⟩ :=
        selects companyStore companyStore_conforms query.distinct
      rw [← distinct_regrouped] at selected_regrouped
      have selected' : companyStore.select query = .ok rows := selected
      rw [selected'] at rows_eq
      obtain rfl : rows = [⟨⟨1⟩, 0⟩] := Option.some.inj rows_eq
      exact ⟨query, regrouped, rfl, compiled_regrouped, selected', selected_regrouped⟩

end QueryCompiler

end FilterQuery
