import FilterQuery.Proofs.Compile.Comparisons
import FilterQuery.Proofs.Store.Conformity

/-!
# Strategies and built-in operators

A strategy gives a meaning to operators that have none of their own.  It is handed the whole
context of a compile, and could do anything with it; but it is only asked where a comparison has
none of the built-in symbols.  A filter without such comparisons is compiled as if there were no
strategy, at any depth of its groups.
-/

namespace FilterQuery

/-! ## Symbols -/

/-- The symbols of an operator beside its canonical one. -/
def ComparisonOperator.synonyms : ComparisonOperator → List String
  | .greaterThan => [">"]
  | .greaterThanOrEqual => [">="]
  | .lessThan => ["<"]
  | .lessThanOrEqual => ["<="]
  | _ => []

/-- A text that has a meaning of its own as an operator. -/
def ComparisonOperator.IsSymbol (text : String) : Prop :=
  ∃ operator : ComparisonOperator, text = operator.symbol ∨ text ∈ operator.synonyms

/-- A text is parsed as the operator that it is a symbol of. -/
theorem ComparisonOperator.parse?_eq_some_iff {text : String} {operator : ComparisonOperator} :
    parse? text = some operator ↔ text = operator.symbol ∨ text ∈ operator.synonyms := by
  constructor
  · intro parsed
    unfold parse? at parsed
    split at parsed <;> cases parsed <;> simp [symbol, synonyms]
  · rintro (rfl | synonym)
    · exact parse?_symbol operator
    · cases operator <;> simp only [synonyms, List.mem_singleton, List.not_mem_nil] at synonym <;>
        (subst synonym; rfl)

theorem ComparisonOperator.isSymbol_iff {text : String} :
    IsSymbol text ↔ (parse? text).isSome := by
  rw [Option.isSome_iff_exists]
  exact exists_congr fun _ => parse?_eq_some_iff.symm

/-! ## Compiles -/

namespace Scope

variable {scope : Scope} {strategy : Option Strategy}

/-- No strategy is asked about a built-in symbol. -/
theorem compileComparison_of_isSymbol {node : Comparison}
    (builtIn : ComparisonOperator.IsSymbol node.operator)
    (compile : Filter → Compile Predicate) :
    scope.compileComparison strategy compile node = scope.compileBuiltin node := by
  rw [ComparisonOperator.isSymbol_iff, Option.isSome_iff_exists] at builtIn
  obtain ⟨operator, parsed⟩ := builtIn
  unfold compileComparison
  rw [parsed]

/-- A filter of built-in symbols is compiled without any strategy. -/
theorem compile_of_isSymbol {filter : Filter}
    (builtIn : ∀ node ∈ filter.comparisons, ComparisonOperator.IsSymbol node.operator) :
    scope.compile strategy filter = scope.compile none filter := by
  rw [compile_none]
  exact compile_eq_compileWith fun compile node member =>
    compileComparison_of_isSymbol (builtIn node member) compile

end Scope

/-! ## Compilers -/

/-- A configuration with another strategy, or without any. -/
def Configuration.withStrategy (configuration : Configuration) (strategy : Option Strategy) :
    Configuration :=
  { configuration with tools := configuration.tools.withStrategy strategy }

def QueryCompiler.withStrategy (compiler : QueryCompiler) (strategy : Option Strategy) :
    QueryCompiler :=
  { compiler with configuration := compiler.configuration.withStrategy strategy }

def PredicateCompiler.withStrategy (compiler : PredicateCompiler) (strategy : Option Strategy) :
    PredicateCompiler :=
  { compiler with configuration := compiler.configuration.withStrategy strategy }

theorem Configuration.compile_withStrategy_of_isSymbol (configuration : Configuration)
    (strategy : Strategy) {filter : Filter}
    (builtIn : ∀ node ∈ filter.comparisons, ComparisonOperator.IsSymbol node.operator)
    (metadata : Metadata) (origin : Origin) (steps : Nat) :
    (configuration.withStrategy (some strategy)).compile metadata origin steps filter =
      (configuration.withStrategy none).compile metadata origin steps filter :=
  Scope.compile_of_isSymbol builtIn

/-- A strategy does not bear on filters of built-in symbols, whatever it does when it is asked.
With and without it a query compiler comes to the same query or stops for the same reason, and a
predicate compiler comes to the same predicate or stops for the same reason, and leaves the same
query behind. -/
theorem compile_withStrategy_eq (strategy : Strategy) (filter : Filter)
    (builtIn : ∀ node ∈ filter.comparisons, ComparisonOperator.IsSymbol node.operator) :
    (∀ (compiler : QueryCompiler) (query : Query),
      (compiler.withStrategy (some strategy)).compileInto query filter =
        (compiler.withStrategy none).compileInto query filter) ∧
    ∀ (compiler : PredicateCompiler) (query : Query),
      (compiler.withStrategy (some strategy)).compile filter query =
        (compiler.withStrategy none).compile filter query := by
  constructor
  · intro compiler query
    have compile_eq := compiler.configuration.compile_withStrategy_of_isSymbol strategy builtIn
    unfold QueryCompiler.compileInto QueryCompiler.withStrategy
    simp only [compile_eq]
    rfl
  · intro compiler query
    have compile_eq := compiler.configuration.compile_withStrategy_of_isSymbol strategy builtIn
    simp only [PredicateCompiler.compile_apply, PredicateCompiler.withStrategy, compile_eq]
    rfl

/-- A strategy that empties the query and refuses is not asked about a group of canonical symbols
and synonyms. -/
theorem compile_withStrategy_eq_company :
    let hostile : Strategy := fun _ _ node => do
      set (Query.select ⟨9⟩)
      Compile.reject (.unknownOperator node.operator)
    let filter : Filter := .group .or [.comparison ⟨"members.id", ">=", ["2"]⟩,
      .group .and [.comparison ⟨"id", "=lt=", ["3"]⟩, .comparison ⟨"members.skills", "==", ["go"]⟩]]
    let compiler := QueryCompiler.select company.metadata ⟨1⟩
    (∀ node ∈ filter.comparisons, ComparisonOperator.IsSymbol node.operator) ∧
      (compiler.withStrategy (some hostile)).compileInto (.select ⟨1⟩) filter =
        (compiler.withStrategy none).compileInto (.select ⟨1⟩) filter ∧
      ((compiler.withStrategy (some hostile)).compileInto (.select ⟨1⟩) filter).toOption.map
        (·.joins.map (·.path)) = some ["members", "skills"] := by
  intro hostile filter compiler
  have builtIn : ∀ node ∈ filter.comparisons, ComparisonOperator.IsSymbol node.operator := by
    simp only [ComparisonOperator.isSymbol_iff]
    decide +kernel
  have same := (compile_withStrategy_eq hostile filter builtIn).1 compiler (.select ⟨1⟩)
  refine ⟨builtIn, same, ?_⟩
  rw [same]
  decide +kernel

end FilterQuery
