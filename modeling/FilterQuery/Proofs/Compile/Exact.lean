import FilterQuery.Proofs.Compile.Landing
import FilterQuery.Proofs.Selector.Exact

/-!
# Compiling without aliases

Without aliases a selector lands where its segments say.  So a filter that is compiled into a
fresh query joins the paths of its selectors and nothing else, and each leaf of its predicate
reads an attribute whose route spells out the selector of the comparison.
-/

namespace FilterQuery

variable {query : Query}

namespace Scope

variable {scope : Scope}

/-- What a compile of one comparison without aliases leaves behind: a condition on an attribute
that its selector spells out, and the joins of the selector. -/
structure Spelled (scope : Scope) (query : Query) (node : Comparison) (predicate : Predicate) :
    Prop where
  condition : ∃ operator leaf, ComparisonOperator.parse? node.operator = some operator ∧
    query.Located scope.metadata leaf.path leaf.type ∧
    query.route leaf.path.root ++ leaf.path.segments = Text.segments node.selector ∧
    scope.metadata.selectorType scope.origin.entity (Text.segments node.selector) = .ok leaf.type ∧
    scope.literals.condition operator node.operator leaf node.arguments = .ok predicate
  joins : ∀ path ∈ scope.metadata.joinedPaths scope.origin.entity [] (Text.segments node.selector),
    path ∈ routesOf query.joins

theorem Spelled.conditions {node : Comparison} {predicate : Predicate}
    (spelled : scope.Spelled query node predicate) : scope.Conditions query node predicate := by
  rcases spelled.condition with ⟨operator, leaf, -, located, -, -, condition_eq⟩
  exact ⟨operator, leaf, located, condition_eq⟩

section

variable (noAliases : ∀ owner name, scope.mapper owner name = none)
  (context_eq : scope.origin.context = .root)

include noAliases context_eq

/-- A selector leads where its segments say, and needs the paths joined that metadata says. -/
theorem landing_of_noAliases {selector : String} {landing : Landing}
    (landing_eq : scope.landing? selector = some landing) :
    landing.path = Text.segments selector ∧
      scope.metadata.selectorType scope.origin.entity (Text.segments selector) =
        .ok landing.type ∧
      ∀ path, path ∈ scope.joinedPaths selector ↔
        path ∈ scope.metadata.joinedPaths scope.origin.entity [] (Text.segments selector) := by
  have joined : scope.fresh.Joined scope.metadata := Query.joined_of_joins_eq_nil rfl rfl
  have entity_eq : scope.fresh.entityOf scope.origin.context = some scope.origin.entity := by
    rw [context_eq, Query.entityOf_root]
    rfl
  have route_eq : scope.fresh.route scope.origin.context = [] := by
    rw [context_eq, Query.route_root]
  have paths_eq : scope.metadata.joinedPaths scope.origin.entity [] (Text.segments selector) =
      routesOf scope.fresh.joins ++ scope.metadata.joinedPaths scope.origin.entity
        (scope.fresh.route scope.origin.context) (Text.segments selector) := by
    rw [route_eq]
    rfl
  have exact := Selector.resolve_exact noAliases joined entity_eq selector (fun _ _ _ => rfl)
    paths_eq scope.steps
  rw [route_eq, List.nil_append] at exact
  rw [landing?, resolve_apply] at landing_eq
  rw [joinedPaths, resolve_apply]
  generalize Selector.resolve _ _ _ scope.fresh _ _ = progress at exact landing_eq ⊢
  cases progress with
  | walking walk => cases landing_eq
  | stopped outcome last =>
      cases outcome with
      | error error => cases landing_eq
      | ok leaf =>
          cases landing_eq
          exact ⟨exact.route_eq leaf rfl, exact.type_eq.symm,
            fun path => ⟨exact.within path, exact.joins leaf rfl path⟩⟩

/-- A condition where a selector lands is one that the selector spells out. -/
theorem Landed.spelled {node : Comparison} {predicate : Predicate}
    (landed : scope.Landed query node predicate) : scope.Spelled query node predicate := by
  rcases landed.condition with ⟨operator, leaf, meaning, located, landing_eq, condition_eq⟩
  rcases landing_of_noAliases noAliases context_eq landing_eq with ⟨path_eq, type_eq, paths_iff⟩
  exact ⟨⟨operator, leaf, meaning, located, path_eq, type_eq, condition_eq⟩,
    fun path member => landed.joins path ((paths_iff path).mpr member)⟩

/-- The paths that a filter needs joined are those that metadata says. -/
theorem mem_joinedPathsOf_iff {filter : Filter} {predicate : Predicate}
    (mirrors : filter.Mirrors (scope.Landed query) predicate) (path : List String) :
    path ∈ scope.joinedPathsOf filter ↔
      path ∈ filter.joinedPaths scope.metadata scope.origin.entity := by
  rw [joinedPathsOf, Filter.joinedPaths, List.mem_flatMap, List.mem_flatMap]
  apply exists_congr
  intro node
  apply and_congr_right
  intro member
  rcases mirrors.exists_related node member with ⟨leaf, landed⟩
  rcases landed.condition with ⟨_, _, _, _, landing_eq, _⟩
  exact (landing_of_noAliases noAliases context_eq landing_eq).2.2 path

end

end Scope

/-! ## Compilers -/

/-- A query with plain joins for the paths that a filter joins, whose predicate mirrors the filter
with conditions that spell out its selectors. -/
structure QueryCompiler.Renders (compiler : QueryCompiler) (filter : Filter) (query : Query) :
    Prop where
  root_eq : query.root = compiler.root
  joined : query.Joined compiler.metadata
  inner : ∀ join ∈ query.joins, join.kind = .inner
  paths : ∀ path, path ∈ routesOf query.joins ↔
    path ∈ filter.joinedPaths compiler.metadata compiler.root
  mirrored : ∃ predicate, query.filter = some predicate ∧
    filter.Mirrors ((compiler.configuration.scope compiler.metadata (.root compiler.root)
      compiler.steps).Spelled query) predicate

/-- Without aliases and strategies a filter is compiled to a query that renders it. -/
theorem QueryCompiler.renders_of_compile_eq_ok {compiler : QueryCompiler} {filter : Filter}
    (noAliases : compiler.configuration.tools.mapper = AliasTable.empty.map)
    (builtIn : compiler.configuration.tools.strategy = none)
    (h : compiler.compile filter = .ok query) : compiler.Renders filter query := by
  have lands := lands_of_compile_eq_ok builtIn h
  have unaliased := scope_mapper_eq_none noAliases
  rcases lands.mirrored with ⟨predicate, filter_eq, mirrors⟩
  exact ⟨lands.root_eq, lands.joined, lands.inner,
    fun path => (lands.paths path).trans (Scope.mem_joinedPathsOf_iff unaliased rfl mirrors path),
    predicate, filter_eq, mirrors.mono fun _ _ _ landed => landed.spelled unaliased rfl⟩

end FilterQuery
