import FilterQuery.Proofs.Compile.Alone
import FilterQuery.Proofs.Compile.Conditions
import FilterQuery.Proofs.Compile.Landing
import FilterQuery.Proofs.Compile.Strategies
import FilterQuery.Proofs.Selector.Arrival

/-!
# Comparisons with entities

An entity is compared as its identifier is.  An equality or a membership that asks for values is
therefore compiled alike for both, or refused for the same reason, and null passes neither.
-/

namespace FilterQuery

/-! ## Arguments for references -/

/-- A parser that reads an argument for an entity as one for its identifier. -/
def ArgumentParser.ReadsIdentifiers (parser : ArgumentParser) : Prop :=
  ∀ argument entity identifier,
    parser argument (.reference entity identifier) = parser argument identifier

theorem ArgumentParser.withDates_readsIdentifiers (dates : DateReading) :
    (withDates dates).ReadsIdentifiers :=
  fun _ _ _ => rfl

/-- The arguments of an equality or of a membership that asks for values: there are no patterns, and
an equality is no test for a missing value. -/
structure Literals.AsksValues (literals : Literals) (operator : ComparisonOperator)
    (arguments : List String) : Prop where
  unordered : operator.requiresOrdering = false
  starless : ∀ argument ∈ arguments, '*' ∉ argument.toList
  given : operator.isMultiValued = false → literals.nullToken ∉ arguments

namespace Literals

variable {literals : Literals} {operator : ComparisonOperator} {symbol argument : String}
  {arguments : List String} {op : CompareOp}

theorem AsksValues.given_of_meaning (asks : literals.AsksValues operator [argument])
    (meaning : operator.meaning = .comparison op) : argument ≠ literals.nullToken := by
  have single : operator.isMultiValued = false := by
    rw [← Bool.not_eq_true, operator.isMultiValued_iff, meaning]
    exact nofun
  simpa [eq_comm] using asks.given single

theorem AsksValues.plain (asks : literals.AsksValues operator [argument]) :
    argument.toList.contains '*' = false := by
  rw [Bool.eq_false_iff, ne_eq, List.contains_iff_mem]
  exact asks.starless argument (List.mem_singleton_self argument)

/-- Null does not pass. -/
theorem AsksValues.not_accepts_null (asks : literals.AsksValues operator arguments)
    (type : AttributeType) : literals.accepts operator type arguments .null = false := by
  unfold accepts
  split
  · split
    · exact Value.not_among_null _ _
    · rfl
  · rename_i op argument meaning
    rw [passes, if_neg (asks.given_of_meaning meaning), asks.plain, Bool.and_false]
    split
    · rename_i impossible
      cases impossible
    · split
      · exact Value.not_holds_null _ _
      · rfl
  · rfl

section

variable (reads : literals.parser.ReadsIdentifiers) (entity : String) (type : AttributeType)

include reads

theorem coerce_reference (argument : String) :
    literals.coerce argument (.reference entity type) = literals.coerce argument type := by
  rw [coerce, coerce, reads]

theorem coerceAll_reference (arguments : List String) :
    literals.coerceAll arguments (.reference entity type) = literals.coerceAll arguments type := by
  simp only [coerceAll, coerce_reference reads]

/-- A value passes as that of an entity if it passes as that of its identifier. -/
theorem AsksValues.accepts_reference (asks : literals.AsksValues operator arguments)
    (value : Value) :
    literals.accepts operator (.reference entity type) arguments value =
      literals.accepts operator type arguments value := by
  unfold accepts
  split
  · rw [coerceAll_reference reads]
  · rw [passes, passes, coerce_reference reads, asks.plain, Bool.and_false, Bool.and_false]
  · rfl

/-- An operator asks of an entity what it asks of its identifier, or fails with the same error. -/
theorem AsksValues.condition_reference (asks : literals.AsksValues operator arguments)
    (path : AttributePath) (name : String) :
    literals.condition operator symbol ⟨path, name, .reference entity type⟩ arguments =
      literals.condition operator symbol ⟨path, name, type⟩ arguments := by
  unfold condition
  split
  · rw [coerceAll_reference reads]
  · rename_i op argument meaning
    have unordered := asks.unordered
    rw [ComparisonOperator.requiresOrdering_of_meaning meaning] at unordered
    simp only [comparisonTest, if_neg (asks.given_of_meaning meaning), asks.plain, Bool.and_false,
      valueTest, coerce_reference reads, unordered, Bool.false_and, Bool.false_eq_true, if_false]
  · rfl

end

end Literals

/-! ## Compiles of one comparison -/

namespace QueryCompiler

variable {compiler : QueryCompiler}

/-- A strategy has no part in a filter of built-in symbols. -/
theorem compile_withStrategy_none (compiler : QueryCompiler) {filter : Filter}
    (builtIn : ∀ node ∈ filter.comparisons, ComparisonOperator.IsSymbol node.operator) :
    (compiler.withStrategy none).compile filter = compiler.compile filter := by
  have compile_eq : compiler.configuration.compile compiler.metadata (.root compiler.root)
      compiler.steps filter = (compiler.configuration.withStrategy none).compile
        compiler.metadata (.root compiler.root) compiler.steps filter :=
    Scope.compile_of_isSymbol builtIn
  unfold compile compileInto
  dsimp only
  rw [compile_eq]
  rfl

section

variable (noAliases : compiler.configuration.tools.mapper = AliasTable.empty.map)

include noAliases

/-- Without aliases a selector that has a type leads to an attribute of that type. -/
theorem exists_resolve_eq_ok {selector : String} {type : AttributeType}
    (type_eq : compiler.metadata.selectorType compiler.root (Text.segments selector) = .ok type) :
    ∃ target last, target.type = type ∧
      compiler.scope.resolve selector { root := compiler.root, projection := compiler.projection } =
        (.ok target, last) := by
  let fresh : Query := { root := compiler.root, projection := compiler.projection }
  have joined : fresh.Joined compiler.scope.metadata := Query.joined_of_joins_eq_nil rfl rfl
  obtain ⟨outcome, last, resolved⟩ := Selector.exists_resolve_eq_stopped compiler.scope.metadata
    (scope_mapper_eq_none noAliases) compiler.scope.steps fresh compiler.scope.origin selector
  have entity_eq : fresh.entityOf compiler.scope.origin.context =
      some compiler.scope.origin.entity := rfl
  have exact := Selector.resolve_exact (scope_mapper_eq_none noAliases) joined entity_eq selector
    (fun _ _ _ => rfl) rfl compiler.scope.steps
  have found : outcome.map (·.type) = .ok type := by
    rw [resolved] at exact
    exact exact.type_eq.trans type_eq
  cases outcome with
  | error error => cases found
  | ok target =>
      refine ⟨target, last, Except.ok.inj found, ?_⟩
      rw [Scope.resolve_apply, resolved]

/-- A comparison on a selector that has a type is compiled as its condition is. -/
theorem compile_comparison (builtIn : compiler.configuration.tools.strategy = none)
    (node : Comparison) (target : Attribute) {operator : ComparisonOperator}
    (parsed : ComparisonOperator.parse? node.operator = some operator)
    (type_eq : compiler.metadata.selectorType compiler.root (Text.segments node.selector) =
      .ok target.type) :
    (∀ error,
      compiler.scope.literals.condition operator node.operator target node.arguments =
        .error error → compiler.compile (.comparison node) = .error (.rejected error)) ∧
    ∀ leaf,
      compiler.scope.literals.condition operator node.operator target node.arguments = .ok leaf →
        ∃ query, compiler.compile (.comparison node) = .ok query := by
  obtain ⟨found, last, found_type, resolved⟩ := exists_resolve_eq_ok noAliases type_eq
  have compiled : (compiler.configuration.scope compiler.metadata (.root compiler.root)
      compiler.steps).compileBuiltin node
        { root := compiler.root, projection := compiler.projection } = Compile.ofExcept
          (compiler.scope.literals.condition operator node.operator found node.arguments) last := by
    rw [Scope.compileBuiltin, parsed]
    exact Compile.bind_apply_of_ok resolved
  have compile_eq := compileInto_comparison builtIn
    { root := compiler.root, projection := compiler.projection } node
  dsimp only at compile_eq
  rw [compiled, Literals.condition_withPath found_type] at compile_eq
  constructor
  · intro error failed
    rw [failed] at compile_eq
    exact compile_eq
  · intro leaf conditioned
    rw [conditioned] at compile_eq
    exact ⟨_, compile_eq⟩

/-- Selectors to an entity and to its identifier are compiled alike where values are asked for. -/
theorem compile_reference (builtIn : compiler.configuration.tools.strategy = none)
    (reads : compiler.configuration.tools.parser.ReadsIdentifiers)
    {operator : ComparisonOperator} {selector identifier symbol entity : String}
    {arguments : List String} {type : AttributeType}
    (parsed : ComparisonOperator.parse? symbol = some operator)
    (asks : compiler.scope.literals.AsksValues operator arguments)
    (type_eq : compiler.metadata.selectorType compiler.root (Text.segments selector) =
      .ok (.reference entity type))
    (identifier_type_eq :
      compiler.metadata.selectorType compiler.root (Text.segments identifier) = .ok type) :
    (∃ error,
      compiler.compile (.comparison ⟨selector, symbol, arguments⟩) = .error (.rejected error) ∧
      compiler.compile (.comparison ⟨identifier, symbol, arguments⟩) = .error (.rejected error)) ∨
    ∃ query other,
      compiler.compile (.comparison ⟨selector, symbol, arguments⟩) = .ok query ∧
      compiler.compile (.comparison ⟨identifier, symbol, arguments⟩) = .ok other := by
  let path : AttributePath := ⟨.root, []⟩
  have compiled := compile_comparison noAliases builtIn ⟨selector, symbol, arguments⟩
    ⟨path, "", .reference entity type⟩ parsed type_eq
  have compiledOther := compile_comparison noAliases builtIn ⟨identifier, symbol, arguments⟩
    ⟨path, "", type⟩ parsed identifier_type_eq
  dsimp only at compiled compiledOther
  rw [asks.condition_reference reads] at compiled
  cases conditioned :
      compiler.scope.literals.condition operator symbol ⟨path, "", type⟩ arguments with
  | error error =>
      exact .inl ⟨error, compiled.1 error conditioned, compiledOther.1 error conditioned⟩
  | ok leaf =>
      obtain ⟨query, query_eq⟩ := compiled.2 leaf conditioned
      obtain ⟨other, other_eq⟩ := compiledOther.2 leaf conditioned
      exact .inr ⟨query, other, query_eq, other_eq⟩

end

end QueryCompiler

end FilterQuery
