import FilterQuery.Compiler
import FilterQuery.Proofs.Compile.Trees
import FilterQuery.Proofs.Selector.Soundness

/-!
# Compiling comparisons

Without a strategy each comparison is compiled on its own: its selector is walked, and
the attribute at the end gives the condition.  The walk is all that changes the query, so
a compile keeps the joins of a query on metadata and adds to them only, and every leaf of
the predicate is a condition on an attribute that the query has.

A strategy sees the query as well, but it can change it in two ways only: by walking
selectors and by compiling filters from the origin of the compile.  So the joins stay on
metadata also where operators get their meaning from a strategy, however deep strategies
are nested.
-/

namespace FilterQuery

/-! ## Strategies -/

/-- A strategy that gets at the query by walking selectors and by compiling filters alone, and so
keeps what these keep. -/
def Strategy.Confined (strategy : Strategy) : Prop :=
  ∀ (scope : Scope) (compile : Filter → Compile Predicate) (Inv : Query → Prop),
    (∀ selector, Compile.Keeps Inv (scope.resolve selector)) →
      (∀ filter, Compile.Keeps Inv (compile filter)) →
        ∀ node, Compile.Keeps Inv (strategy scope compile node)

/-- The strategy of a configuration, if it has one, is confined. -/
def Configuration.Confined (configuration : Configuration) : Prop :=
  ∀ strategy ∈ configuration.tools.strategy, strategy.Confined

theorem Configuration.confined_of_strategy_eq_none {configuration : Configuration}
    (builtIn : configuration.tools.strategy = none) : configuration.Confined := by
  intro strategy installed
  rw [builtIn] at installed
  cases installed

namespace Scope

variable {scope : Scope} {query next before : Query}

/-- A filter is compiled comparison by comparison where no strategy has a say. -/
theorem compile_eq_compileWith {strategy : Option Strategy} {filter : Filter}
    (builtIn : ∀ compile, ∀ node ∈ filter.comparisons,
      scope.compileComparison strategy compile node = scope.compileBuiltin node) :
    scope.compile strategy filter = filter.compileWith scope.compileBuiltin := by
  unfold compile
  cases scope.steps with
  | zero =>
      rw [compileWithin]
      exact filter.compileWith_congr (builtIn _)
  | succ depth =>
      rw [compileWithin]
      exact filter.compileWith_congr (builtIn _)

/-- Without a strategy that is so for every filter. -/
theorem compile_none (scope : Scope) (filter : Filter) :
    scope.compile none filter = filter.compileWith scope.compileBuiltin := by
  apply compile_eq_compileWith
  intro compile node _
  cases meaning : ComparisonOperator.parse? node.operator <;> simp [compileComparison, meaning]

/-- The outcome and the query of a walk. -/
theorem resolve_apply (scope : Scope) (selector : String) (query : Query) :
    scope.resolve selector query =
      match Selector.resolve scope.metadata scope.mapper scope.steps query scope.origin
        selector with
      | .walking walk => (.error .outOfSteps, walk.query)
      | .stopped (.error error) last => (.error (.rejected error), last)
      | .stopped (.ok leaf) last => (.ok leaf, last) := by
  have read : (get : Compile Query) query = (.ok query, query) := rfl
  rw [Scope.resolve, Compile.bind_apply_of_ok read]
  cases Selector.resolve scope.metadata scope.mapper scope.steps query scope.origin selector with
  | walking walk => rfl
  | stopped outcome last => cases outcome <;> rfl

/-- What a walk keeps of a query is kept whichever way it ends. -/
theorem resolve_keeps {Inv : Query → Prop} {selector : String}
    (keeps : ∀ query, Inv query →
      (Selector.resolve scope.metadata scope.mapper scope.steps query scope.origin
        selector).Holds (fun walk => Inv walk.query) (fun _ last => Inv last)) :
    Compile.Keeps Inv (scope.resolve selector) := by
  intro query h
  have kept := keeps query h
  rw [resolve_apply]
  split
  · rename_i walk resolved
    rwa [resolved] at kept
  · rename_i error last resolved
    rwa [resolved] at kept
  · rename_i leaf last resolved
    rwa [resolved] at kept

/-- What a walk keeps of a query, the compile of a comparison keeps. -/
theorem compileBuiltin_keeps {Inv : Query → Prop} {node : Comparison}
    (keeps : Compile.Keeps Inv (scope.resolve node.selector)) :
    Compile.Keeps Inv (scope.compileBuiltin node) := by
  unfold compileBuiltin
  split
  · exact .reject _
  · exact keeps.bind fun leaf => .ofExcept _

/-- A comparison that is compiled has an operator, an attribute at the end of its selector,
and a condition. -/
theorem exists_of_compileBuiltin_eq_ok {node : Comparison} {predicate : Predicate}
    (h : scope.compileBuiltin node query = (.ok predicate, next)) :
    ∃ operator leaf, ComparisonOperator.parse? node.operator = some operator ∧
      Selector.resolve scope.metadata scope.mapper scope.steps query scope.origin node.selector =
        .stopped (.ok leaf) next ∧
      scope.literals.condition operator node.operator leaf node.arguments = .ok predicate := by
  unfold compileBuiltin at h
  cases meaning : ComparisonOperator.parse? node.operator with
  | none =>
      rw [meaning] at h
      cases h
  | some operator =>
      rw [meaning] at h
      rcases Compile.exists_of_bind_eq_ok h with ⟨leaf, middle, resolved, conditioned⟩
      cases condition_eq : scope.literals.condition operator node.operator leaf node.arguments with
      | error error =>
          rw [condition_eq] at conditioned
          cases conditioned
      | ok found =>
          rw [condition_eq] at conditioned
          cases conditioned
          refine ⟨operator, leaf, rfl, ?_, condition_eq⟩
          rw [resolve_apply] at resolved
          split at resolved
          · cases resolved
          · cases resolved
          · rename_i walked
            cases resolved
            exact walked

/-- A comparison whose selector leads to an attribute gives the condition on that, or fails as
this does. -/
theorem compileBuiltin_of_resolve {operator : ComparisonOperator} {selector symbol : String}
    {target : Attribute} (parsed : ComparisonOperator.parse? symbol = some operator)
    (resolved : scope.resolve selector query = (.ok target, next)) (arguments : List String) :
    scope.compileBuiltin ⟨selector, symbol, arguments⟩ query =
      Compile.ofExcept (scope.literals.condition operator symbol target arguments) next := by
  rw [compileBuiltin, parsed]
  exact Compile.bind_apply_of_ok resolved

theorem compileBuiltin_eq {operator : ComparisonOperator} {selector symbol : String}
    {target : Attribute} {arguments : List String} {predicate : Predicate}
    (parsed : ComparisonOperator.parse? symbol = some operator)
    (resolved : scope.resolve selector query = (.ok target, next))
    (condition_eq : scope.literals.condition operator symbol target arguments = .ok predicate) :
    scope.compileBuiltin ⟨selector, symbol, arguments⟩ query = (.ok predicate, next) := by
  rw [compileBuiltin_of_resolve parsed resolved, condition_eq]
  rfl

/-! ## On metadata -/

/-- A query that is joined along metadata and has grown from another one. -/
structure Grown (metadata : Metadata) (before query : Query) : Prop where
  joined : query.Joined metadata
  extended : before.Extends query

/-- A walk keeps a query joined, and only adds joins to it. -/
theorem resolve_grown
    (entity_eq : before.entityOf scope.origin.context = some scope.origin.entity)
    (selector : String) :
    Compile.Keeps (Grown scope.metadata before) (scope.resolve selector) := by
  apply resolve_keeps
  intro query grown
  have sound := Selector.resolve_sound grown.joined (grown.extended.entityOf entity_eq)
    scope.mapper scope.steps selector
  exact sound.imp (fun walk sound => ⟨sound.joined, grown.extended.trans sound.grown⟩)
    (fun outcome last ended => ⟨ended.joined, grown.extended.trans ended.grown⟩)

/-- So does a comparison. -/
theorem compileBuiltin_grown
    (entity_eq : before.entityOf scope.origin.context = some scope.origin.entity)
    (node : Comparison) :
    Compile.Keeps (Grown scope.metadata before) (scope.compileBuiltin node) :=
  compileBuiltin_keeps (resolve_grown entity_eq node.selector)

variable {strategy : Option Strategy}

/-- So does a strategy that is asked about a comparison. -/
theorem compileComparison_grown (confined : ∀ custom ∈ strategy, custom.Confined)
    (entity_eq : before.entityOf scope.origin.context = some scope.origin.entity)
    {compile : Filter → Compile Predicate}
    (keeps : ∀ filter, Compile.Keeps (Grown scope.metadata before) (compile filter))
    (node : Comparison) :
    Compile.Keeps (Grown scope.metadata before)
      (scope.compileComparison strategy compile node) := by
  unfold compileComparison
  split
  · exact confined _ rfl scope compile _ (resolve_grown entity_eq) keeps node
  · exact compileBuiltin_grown entity_eq node

theorem compileWithin_grown (confined : ∀ custom ∈ strategy, custom.Confined)
    (entity_eq : before.entityOf scope.origin.context = some scope.origin.entity) (depth : Nat)
    (filter : Filter) :
    Compile.Keeps (Grown scope.metadata before) (scope.compileWithin strategy depth filter) := by
  induction depth generalizing filter with
  | zero =>
      rw [compileWithin]
      exact filter.compileWith_keeps fun node _ =>
        compileComparison_grown confined entity_eq (fun _ _ grown => grown) node
  | succ depth ih =>
      rw [compileWithin]
      exact filter.compileWith_keeps fun node _ =>
        compileComparison_grown confined entity_eq ih node

/-- So does a filter, whether its compile succeeds or fails. -/
theorem compile_grown (scope : Scope) (confined : ∀ custom ∈ strategy, custom.Confined)
    (entity_eq : before.entityOf scope.origin.context = some scope.origin.entity)
    (filter : Filter) :
    Compile.Keeps (Grown scope.metadata before) (scope.compile strategy filter) :=
  compileWithin_grown confined entity_eq scope.steps filter

/-- A predicate that is a condition on an attribute of a query, as a comparison asks for. -/
def Conditions (scope : Scope) (query : Query) (node : Comparison) (predicate : Predicate) :
    Prop :=
  ∃ operator leaf, query.Located scope.metadata leaf.path leaf.type ∧
    scope.literals.condition operator node.operator leaf node.arguments = .ok predicate

/-- The predicate of a filter mirrors it, with conditions on attributes of the query. -/
theorem compile_mirrors (joined : query.Joined scope.metadata)
    (entity_eq : query.entityOf scope.origin.context = some scope.origin.entity)
    {filter : Filter} {predicate : Predicate}
    (h : scope.compile none filter query = (.ok predicate, next)) :
    filter.Mirrors (scope.Conditions next) predicate := by
  have establishes : Establishes scope.compileBuiltin (Grown scope.metadata query)
      scope.Conditions filter.comparisons := by
    constructor
    · exact fun node _ => compileBuiltin_grown entity_eq node
    · intro node _ before last predicate grown compiled
      rcases exists_of_compileBuiltin_eq_ok compiled with
        ⟨operator, leaf, -, resolved, condition_eq⟩
      have sound := Selector.resolve_sound grown.joined (grown.extended.entityOf entity_eq)
        scope.mapper scope.steps node.selector
      rw [resolved] at sound
      exact ⟨operator, leaf, sound.located leaf rfl, condition_eq⟩
    · intro later _ node predicate before ⟨grown, operator, leaf, located, condition_eq⟩
      have kept := compileBuiltin_grown (grown.extended.entityOf entity_eq) later before
        ⟨grown.joined, .refl before⟩
      exact ⟨⟨kept.joined, grown.extended.trans kept.extended⟩, operator, leaf,
        located.extend kept.extended, condition_eq⟩
  rw [compile_none] at h
  exact filter.compileWith_mirrors establishes ⟨joined, .refl query⟩ h

end Scope

/-! ## Compilers -/

variable {metadata : Metadata} {query next result : Query}

theorem Query.entityOf_congr (root_eq : next.root = query.root)
    (joins_eq : next.joins = query.joins) (context : Context) :
    next.entityOf context = query.entityOf context := by
  cases context with
  | root => exact congrArg some root_eq
  | join id => simp [entityOf, join?, joins_eq]

/-- Only the root, the joins and their index bear on whether a query is joined. -/
theorem Query.Joined.congr (joined : query.Joined metadata) (root_eq : next.root = query.root)
    (joins_eq : next.joins = query.joins) (index_eq : next.index = query.index) :
    next.Joined metadata := by
  constructor
  · rw [joins_eq]
    exact joined.id_eq
  · rw [joins_eq, index_eq]
    exact joined.get?_index_iff
  · rw [joins_eq]
    exact joined.parent_lt
  · intro i join join_eq
    rw [joins_eq] at join_eq
    rcases joined.leads join_eq with ⟨owner, owner_eq, leads⟩
    exact ⟨owner, (entityOf_congr root_eq joins_eq _).trans owner_eq, leads⟩

/-- Only the root and the joins bear on the attributes of a query. -/
theorem Query.Located.congr {path : AttributePath} {type : AttributeType}
    (located : query.Located metadata path type) (root_eq : next.root = query.root)
    (joins_eq : next.joins = query.joins) : next.Located metadata path type := by
  have entityOf_eq := entityOf_congr root_eq joins_eq
  cases located with
  | field entity_eq kind_eq type_eq =>
      exact .field ((entityOf_eq _).trans entity_eq) kind_eq type_eq
  | whole entity_eq type_eq => exact .whole ((entityOf_eq _).trans entity_eq) type_eq
  | element join_eq target_eq => exact .element (joins_eq ▸ join_eq) target_eq

/-- A configuration keeps a query joined, and only adds joins to it. -/
theorem Configuration.Confined.compile_grown {configuration : Configuration}
    (confined : configuration.Confined) {origin : Origin}
    (entity_eq : query.entityOf origin.context = some origin.entity) (steps : Nat)
    (filter : Filter) :
    Compile.Keeps (Scope.Grown metadata query)
      (configuration.compile metadata origin steps filter) :=
  Scope.compile_grown (configuration.scope metadata origin steps) confined entity_eq filter

/-- A filter is compiled into a query by giving the query its predicate. -/
theorem QueryCompiler.exists_of_compileInto_eq_ok {compiler : QueryCompiler} {filter : Filter}
    (h : compiler.compileInto query filter = .ok result) :
    ∃ predicate next,
      compiler.configuration.compile compiler.metadata (.root query.root) compiler.steps filter
        { query with projection := compiler.projection } = (.ok predicate, next) ∧
      result = { next with
        filter := some predicate
        distinct := next.distinct || compiler.configuration.options.distinct } := by
  unfold compileInto at h
  dsimp only at h
  split at h
  · cases h
  · rename_i predicate next compiled
    cases h
    exact ⟨predicate, next, compiled, rfl⟩

/-- A query compiler only adds joins to a query, and gives it its projection, its predicate and
its distinction. -/
theorem QueryCompiler.exists_grown_of_compileInto_eq_ok (compiler : QueryCompiler)
    {filter : Filter} (joined : query.Joined compiler.metadata)
    (confined : compiler.configuration.Confined)
    (h : compiler.compileInto query filter = .ok result) :
    ∃ predicate next,
      Scope.Grown compiler.metadata { query with projection := compiler.projection } next ∧
      result = { next with
        filter := some predicate
        distinct := next.distinct || compiler.configuration.options.distinct } := by
  rcases exists_of_compileInto_eq_ok h with ⟨predicate, next, compiled, result_eq⟩
  let before : Query := { query with projection := compiler.projection }
  have root_eq : before.entityOf (Origin.root query.root).context = some query.root := rfl
  have grown := confined.compile_grown root_eq compiler.steps filter before
    ⟨joined.congr rfl rfl rfl, .refl before⟩
  rw [compiled] at grown
  exact ⟨predicate, next, grown, result_eq⟩

/-- A query compiler without a strategy keeps a query joined along its metadata. -/
theorem QueryCompiler.joined_of_compileInto_eq_ok (compiler : QueryCompiler) {filter : Filter}
    (joined : query.Joined compiler.metadata)
    (builtIn : compiler.configuration.tools.strategy = none)
    (h : compiler.compileInto query filter = .ok result) : result.Joined compiler.metadata := by
  obtain ⟨predicate, next, grown, rfl⟩ :=
    compiler.exists_grown_of_compileInto_eq_ok joined
      (Configuration.confined_of_strategy_eq_none builtIn) h
  exact grown.joined.congr rfl rfl rfl

theorem QueryCompiler.root_of_compileInto_eq_ok (compiler : QueryCompiler) {filter : Filter}
    (joined : query.Joined compiler.metadata)
    (builtIn : compiler.configuration.tools.strategy = none)
    (h : compiler.compileInto query filter = .ok result) : result.root = query.root := by
  obtain ⟨predicate, next, grown, rfl⟩ :=
    compiler.exists_grown_of_compileInto_eq_ok joined
      (Configuration.confined_of_strategy_eq_none builtIn) h
  exact grown.extended.root_eq

/-- The filter of a compiled query mirrors what was compiled. -/
theorem QueryCompiler.mirrors_of_compileInto_eq_ok (compiler : QueryCompiler) {filter : Filter}
    (joined : query.Joined compiler.metadata)
    (builtIn : compiler.configuration.tools.strategy = none)
    (h : compiler.compileInto query filter = .ok result) :
    ∃ predicate, result.filter = some predicate ∧
      filter.Mirrors ((compiler.configuration.scope compiler.metadata (.root query.root)
        compiler.steps).Conditions result) predicate := by
  rcases exists_of_compileInto_eq_ok h with ⟨predicate, next, compiled, rfl⟩
  rw [Configuration.compile, builtIn] at compiled
  let before : Query := { query with projection := compiler.projection }
  have before_joined : before.Joined compiler.metadata := joined.congr rfl rfl rfl
  refine ⟨predicate, rfl, (Scope.compile_mirrors before_joined rfl compiled).mono ?_⟩
  rintro node - leaf ⟨operator, target, located, condition_eq⟩
  exact ⟨operator, target, located.congr rfl rfl, condition_eq⟩

/-- A predicate compiler compiles from its origin, if it has one in the query. -/
theorem PredicateCompiler.compile_apply (compiler : PredicateCompiler) (filter : Filter)
    (query : Query) :
    compiler.compile filter query =
      match compiler.origin query with
      | .error error => (.error (.rejected error), query)
      | .ok origin =>
          compiler.configuration.compile compiler.metadata origin compiler.steps filter query := by
  change (Compile.ofExcept (compiler.origin query) >>= fun origin =>
    compiler.configuration.compile compiler.metadata origin compiler.steps filter) query = _
  cases compiler.origin query with
  | error error => rfl
  | ok origin => exact Compile.bind_apply_of_ok rfl

theorem PredicateCompiler.entityOf_of_origin_eq_ok {compiler : PredicateCompiler} {origin : Origin}
    (h : compiler.origin query = .ok origin) :
    query.entityOf origin.context = some origin.entity := by
  unfold PredicateCompiler.origin at h
  split at h
  · cases h
  · rename_i context _
    split at h
    · cases h
    · rename_i entity entity_eq
      cases h
      exact entity_eq

/-- A predicate compiler keeps a query joined along its metadata, whether it succeeds or fails. -/
theorem PredicateCompiler.joined_compile (compiler : PredicateCompiler)
    (joined : query.Joined compiler.metadata) (confined : compiler.configuration.Confined)
    (filter : Filter) :
    (compiler.compile filter query).2.Joined compiler.metadata := by
  rw [compile_apply]
  split
  · exact joined
  · rename_i origin origin_eq
    exact (confined.compile_grown (entityOf_of_origin_eq_ok origin_eq) compiler.steps filter query
      ⟨joined, .refl query⟩).joined

end FilterQuery
