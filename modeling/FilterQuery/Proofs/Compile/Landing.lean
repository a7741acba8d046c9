import FilterQuery.Proofs.Compile.Comparisons
import FilterQuery.Proofs.Compile.Forms
import FilterQuery.Proofs.Compile.Offences
import FilterQuery.Proofs.Selector.Retraced

/-!
# Comparisons on their own

In a compile from the root of a query without joins, what becomes of a comparison does not depend
on the comparisons around it.  Its selector leads where it leads on a query of its own, and needs
the same paths to be joined.  So a filter compiles exactly if its groups have operators and each
of its comparisons compiles on its own, its query joins the paths of its comparisons and no
others, and each leaf of its predicate reads an attribute where the comparison's selector lands.
-/

namespace FilterQuery

/-! ## Selectors and comparisons -/

/-- More joins leave the routes of attributes as they were. -/
theorem Query.Located.route_eq {metadata : Metadata} {query next : Query} {path : AttributePath}
    {type : AttributeType} (located : query.Located metadata path type)
    (grows : query.Extends next) : next.route path.root = query.route path.root := by
  cases located with
  | field entity_eq _ _ => exact grows.route_eq entity_eq
  | whole entity_eq _ => exact grows.route_eq entity_eq
  | element join_eq _ => exact grows.continues.route_eq (List.getElem?_eq_some_iff.mp join_eq).1

/-- A query without joins is extended by plain joins only. -/
theorem Query.Extends.plain {query next : Query} (grows : query.Extends next)
    (noJoins : query.joins = []) {join : Join} (member : join ∈ next.joins) :
    join.kind = .inner ∧ join.label = none := by
  rcases grows.joins_eq with ⟨added, added_eq, plain⟩
  rw [added_eq, noJoins, List.nil_append] at member
  exact plain join member

namespace Scope

variable {scope : Scope} {query next before : Query}

/-- The query without joins on which a comparison is on its own. -/
def fresh (scope : Scope) : Query :=
  .select scope.origin.entity

/-- What a selector leads to from the root, if it leads anywhere. -/
def landing? (scope : Scope) (selector : String) : Option Landing :=
  match scope.resolve selector scope.fresh with
  | (.ok leaf, query) => some (query.landing leaf)
  | (.error _, _) => none

/-- The paths that a selector needs to be joined. -/
def joinedPaths (scope : Scope) (selector : String) : List (List String) :=
  routesOf (scope.resolve selector scope.fresh).2.joins

/-- The paths that the selectors of a filter need to be joined. -/
def joinedPathsOf (scope : Scope) (filter : Filter) : List (List String) :=
  filter.comparisons.flatMap fun node => scope.joinedPaths node.selector

/-- What a selector leads to is an attribute of the query on which it is walked on its own. -/
theorem exists_of_landing?_eq_some (context_eq : scope.origin.context = .root) {selector : String}
    {landing : Landing} (h : scope.landing? selector = some landing) :
    ∃ leaf alone, scope.resolve selector scope.fresh = (.ok leaf, alone) ∧
      alone.Joined scope.metadata ∧ alone.root = scope.origin.entity ∧
      alone.Located scope.metadata leaf.path leaf.type ∧ alone.landing leaf = landing := by
  have joined : scope.fresh.Joined scope.metadata := Query.joined_of_joins_eq_nil rfl rfl
  have entity_eq : scope.fresh.entityOf scope.origin.context = some scope.origin.entity := by
    rw [context_eq]
    rfl
  have sound := Selector.resolve_sound joined entity_eq scope.mapper scope.steps selector
  rw [landing?, resolve_apply] at h
  rw [resolve_apply]
  generalize Selector.resolve _ _ _ scope.fresh _ _ = progress at sound h ⊢
  cases progress with
  | walking walk => cases h
  | stopped outcome alone =>
      cases outcome with
      | error error => cases h
      | ok leaf =>
          exact ⟨leaf, alone, rfl, sound.joined, sound.grown.root_eq, sound.located leaf rfl,
            Option.some.inj h⟩

/-- Whether a comparison has a condition on what its selector leads to. -/
def Compiles (scope : Scope) (node : Comparison) : Prop :=
  ∃ operator landing target, ComparisonOperator.parse? node.operator = some operator ∧
    scope.landing? node.selector = some landing ∧ target.type = landing.type ∧
    (scope.literals.condition operator node.operator target node.arguments).isOk

/-- A condition on the attribute where the selector of a comparison lands, in a query with the
joins that the selector needs. -/
structure Landed (scope : Scope) (query : Query) (node : Comparison) (predicate : Predicate) :
    Prop where
  condition : ∃ operator leaf, ComparisonOperator.parse? node.operator = some operator ∧
    query.Located scope.metadata leaf.path leaf.type ∧
    scope.landing? node.selector = some (query.landing leaf) ∧
    scope.literals.condition operator node.operator leaf node.arguments = .ok predicate
  joins : ∀ path ∈ scope.joinedPaths node.selector, path ∈ routesOf query.joins

theorem Landed.conditions {node : Comparison} {predicate : Predicate}
    (landed : scope.Landed query node predicate) : scope.Conditions query node predicate := by
  rcases landed.condition with ⟨operator, leaf, -, located, -, condition_eq⟩
  exact ⟨operator, leaf, located, condition_eq⟩

theorem Landed.compiles {node : Comparison} {predicate : Predicate}
    (landed : scope.Landed query node predicate) : scope.Compiles node := by
  rcases landed.condition with ⟨operator, leaf, meaning, -, landing_eq, condition_eq⟩
  exact ⟨operator, query.landing leaf, leaf, meaning, landing_eq, rfl, by rw [condition_eq]; rfl⟩

theorem Landed.extend {node : Comparison} {predicate : Predicate}
    (landed : scope.Landed query node predicate) (grows : query.Extends next) :
    scope.Landed next node predicate := by
  rcases landed.condition with ⟨operator, leaf, meaning, located, landing_eq, condition_eq⟩
  refine ⟨⟨operator, leaf, meaning, located.extend grows, ?_, condition_eq⟩,
    fun path member => grows.continues.mem_routesOf (landed.joins path member)⟩
  rw [landing_eq, Query.landing, Query.landing, located.route_eq grows]

/-- A query that has grown from another one, and joins some paths at most. -/
structure GrownWithin (metadata : Metadata) (before : Query) (paths : List (List String))
    (query : Query) : Prop where
  grown : Grown metadata before query
  within : ∀ path ∈ routesOf query.joins, path ∈ paths

section

variable {paths : List (List String)} (noJoins : before.joins = [])
  (context_eq : scope.origin.context = .root)

include noJoins context_eq

/-- A selector is walked in a compile as it would be on its own. -/
theorem resolve_retraces_of_grown (grown : Grown scope.metadata before query) (selector : String) :
    (Selector.resolve scope.metadata scope.mapper scope.steps query scope.origin
      selector).Retraces query
        (Selector.resolve scope.metadata scope.mapper scope.steps scope.fresh scope.origin
          selector) := by
  have joined : scope.fresh.Joined scope.metadata := Query.joined_of_joins_eq_nil rfl rfl
  have continues : scope.fresh.Continues query :=
    ⟨query.joins, rfl, fun join member => (grown.extended.plain noJoins member).2⟩
  have has : scope.fresh.Has scope.origin.context := by
    rw [context_eq]
    trivial
  exact Selector.resolve_retraces joined.numbered continues grown.joined.numbered has scope.steps
    selector

/-- A walk adds the paths that its selector needs, and no others. -/
theorem mem_routesOf_resolve_iff (grown : Grown scope.metadata before query) (selector : String)
    (path : List String) : path ∈ routesOf (scope.resolve selector query).2.joins ↔
      path ∈ routesOf query.joins ∨ path ∈ scope.joinedPaths selector := by
  have retraces := resolve_retraces_of_grown noJoins context_eq grown selector
  rw [joinedPaths, resolve_apply, resolve_apply]
  generalize Selector.resolve _ _ _ query _ _ = progress at retraces ⊢
  generalize Selector.resolve _ _ _ scope.fresh _ _ = aloneProgress at retraces ⊢
  cases retraces with
  | walking retraces => exact retraces.mem_routes_iff path
  | stopped sight_eq mem_routes_iff =>
      rename_i outcome aloneOutcome alone last
      cases outcome <;> cases aloneOutcome <;> exact mem_routes_iff path

/-- A walk leads where its selector leads. -/
theorem landing?_eq_of_resolve (grown : Grown scope.metadata before query) (selector : String) :
    scope.landing? selector =
      match scope.resolve selector query with
      | (.ok leaf, last) => some (last.landing leaf)
      | (.error _, _) => none := by
  have retraces := resolve_retraces_of_grown noJoins context_eq grown selector
  rw [landing?, resolve_apply, resolve_apply]
  generalize Selector.resolve _ _ _ query _ _ = progress at retraces ⊢
  generalize Selector.resolve _ _ _ scope.fresh _ _ = aloneProgress at retraces ⊢
  cases retraces with
  | walking retraces => rfl
  | stopped sight_eq mem_routes_iff =>
      rename_i outcome aloneOutcome alone last
      cases outcome with
      | error error =>
          cases aloneOutcome with
          | error aloneError => rfl
          | ok aloneLeaf => cases sight_eq
      | ok leaf =>
          cases aloneOutcome with
          | error aloneError => cases sight_eq
          | ok aloneLeaf =>
              exact congrArg some (Query.landing_eq_of_sight_eq (Except.ok.inj sight_eq).symm)

/-- A comparison compiles wherever it compiles on its own. -/
theorem Compiles.exists_compileBuiltin_eq_ok {node : Comparison} (compiles : scope.Compiles node)
    (grown : Grown scope.metadata before query) :
    ∃ predicate next, scope.compileBuiltin node query = (.ok predicate, next) := by
  rcases compiles with ⟨operator, landing, target, meaning, landing_eq, type_eq, isOk⟩
  rw [landing?_eq_of_resolve noJoins context_eq grown] at landing_eq
  rcases resolved : scope.resolve node.selector query with ⟨stop | leaf, last⟩
  · rw [resolved] at landing_eq
    cases landing_eq
  · rw [resolved] at landing_eq
    cases landing_eq
    have type_eq' : leaf.type = target.type := type_eq.symm
    rw [← Literals.isOk_condition type_eq'] at isOk
    cases condition_eq :
        scope.literals.condition operator node.operator leaf node.arguments with
    | error error =>
        rw [condition_eq] at isOk
        cases isOk
    | ok predicate =>
        refine ⟨predicate, last, ?_⟩
        rw [compileBuiltin, meaning]
        dsimp only
        rw [Compile.bind_apply_of_ok resolved, condition_eq]
        rfl

variable (root_eq : before.root = scope.origin.entity)

include root_eq

/-- A comparison joins the paths that its selector needs at most. -/
theorem compileBuiltin_grownWithin {node : Comparison}
    (selected : ∀ path ∈ scope.joinedPaths node.selector, path ∈ paths) :
    Compile.Keeps (GrownWithin scope.metadata before paths) (scope.compileBuiltin node) := by
  have entity_eq : before.entityOf scope.origin.context = some scope.origin.entity := by
    rw [context_eq, Query.entityOf_root, root_eq]
  apply compileBuiltin_keeps
  apply resolve_keeps
  intro query ⟨grown, within⟩
  have sound := Selector.resolve_sound grown.joined (grown.extended.entityOf entity_eq)
    scope.mapper scope.steps node.selector
  have mem_iff := mem_routesOf_resolve_iff noJoins context_eq grown node.selector
  have all : ∀ path, path ∈ routesOf query.joins ∨ path ∈ scope.joinedPaths node.selector →
      path ∈ paths :=
    fun path member => member.elim (within path) (selected path)
  rw [resolve_apply] at mem_iff
  generalize Selector.resolve _ _ _ query _ _ = progress at sound mem_iff ⊢
  cases progress with
  | walking walk =>
      exact ⟨⟨sound.joined, grown.extended.trans sound.grown⟩,
        fun path member => all path ((mem_iff path).mp member)⟩
  | stopped outcome last =>
      refine ⟨⟨sound.joined, grown.extended.trans sound.grown⟩, fun path member => all path ?_⟩
      cases outcome <;> exact (mem_iff path).mp member

/-- A comparison that is compiled has a condition where its selector lands. -/
theorem landed_of_compileBuiltin_eq_ok (grown : Grown scope.metadata before query)
    {node : Comparison} {predicate : Predicate}
    (h : scope.compileBuiltin node query = (.ok predicate, next)) :
    scope.Landed next node predicate := by
  have entity_eq : query.entityOf scope.origin.context = some scope.origin.entity := by
    rw [context_eq, Query.entityOf_root, grown.extended.root_eq, root_eq]
  rcases exists_of_compileBuiltin_eq_ok h with ⟨operator, leaf, meaning, resolved, condition_eq⟩
  have sound := Selector.resolve_sound grown.joined entity_eq scope.mapper scope.steps
    node.selector
  have landing_eq := landing?_eq_of_resolve noJoins context_eq grown node.selector
  have mem_iff := mem_routesOf_resolve_iff noJoins context_eq grown node.selector
  rw [resolved] at sound
  rw [resolve_apply, resolved] at landing_eq mem_iff
  exact ⟨⟨operator, leaf, meaning, sound.located leaf rfl, landing_eq, condition_eq⟩,
    fun path member => (mem_iff path).mpr (.inr member)⟩

/-- The predicate of a filter mirrors it, and its leaves are conditions where the selectors land;
the joins of the query are those that the selectors need. -/
theorem compile_landed (joined : before.Joined scope.metadata) {filter : Filter}
    {predicate : Predicate} (h : scope.compile none filter before = (.ok predicate, next)) :
    filter.Mirrors (scope.Landed next) predicate ∧
      ∀ path, path ∈ routesOf next.joins ↔ path ∈ scope.joinedPathsOf filter := by
  let paths := scope.joinedPathsOf filter
  have keeps : ∀ node ∈ filter.comparisons,
      Compile.Keeps (GrownWithin scope.metadata before paths) (scope.compileBuiltin node) :=
    fun node member => compileBuiltin_grownWithin noJoins context_eq root_eq
      fun path path_mem => List.mem_flatMap.mpr ⟨node, member, path_mem⟩
  have establishes : Establishes scope.compileBuiltin (GrownWithin scope.metadata before paths)
      scope.Landed filter.comparisons := by
    constructor
    · exact keeps
    · intro node _ query last leaf grown compiled
      exact landed_of_compileBuiltin_eq_ok noJoins context_eq root_eq grown.grown compiled
    · intro later member node leaf query ⟨grown, landed⟩
      have entity_eq : query.entityOf scope.origin.context = some scope.origin.entity := by
        rw [context_eq, Query.entityOf_root, grown.grown.extended.root_eq, root_eq]
      have kept := compileBuiltin_grown entity_eq later query ⟨grown.grown.joined, .refl query⟩
      exact ⟨keeps later member query grown, landed.extend kept.extended⟩
  have start : GrownWithin scope.metadata before paths before := by
    refine ⟨⟨joined, .refl before⟩, ?_⟩
    simp [noJoins]
  rw [compile_none] at h
  have mirrors := filter.compileWith_mirrors establishes start h
  have ended := filter.compileWith_keeps keeps before start
  rw [h] at ended
  refine ⟨mirrors, fun path => ⟨ended.within path, ?_⟩⟩
  intro member
  rcases List.mem_flatMap.mp member with ⟨node, node_mem, path_mem⟩
  rcases mirrors.exists_related node node_mem with ⟨leaf, landed⟩
  exact landed.joins path path_mem

/-- A filter compiles exactly if its groups have operators and its comparisons compile on their
own. -/
theorem exists_compile_eq_ok_iff (joined : before.Joined scope.metadata) {filter : Filter} :
    (∃ predicate next, scope.compile none filter before = (.ok predicate, next)) ↔
      filter.Regular ∧ ∀ node ∈ filter.comparisons, scope.Compiles node := by
  constructor
  · rintro ⟨predicate, next, compiled⟩
    rcases compile_landed noJoins context_eq root_eq joined compiled with ⟨mirrors, -⟩
    refine ⟨mirrors.regular, ?_⟩
    intro node member
    rcases mirrors.exists_related node member with ⟨leaf, landed⟩
    exact landed.compiles
  · rintro ⟨regular, compiles⟩
    have entity_eq : before.entityOf scope.origin.context = some scope.origin.entity := by
      rw [context_eq, Query.entityOf_root, root_eq]
    rw [compile_none]
    exact filter.exists_compileWith_eq_ok regular
      (fun node member => ⟨compileBuiltin_grown entity_eq node, fun query grown =>
        (compiles node member).exists_compileBuiltin_eq_ok noJoins context_eq grown⟩)
      before ⟨joined, .refl before⟩

end

end Scope

/-! ## Compilers -/

namespace QueryCompiler

variable {compiler : QueryCompiler} {filter : Filter} {query : Query}

/-- What a compile into a fresh query goes by. -/
def scope (compiler : QueryCompiler) : Scope :=
  compiler.configuration.scope compiler.metadata (.root compiler.root) compiler.steps

theorem scope_mapper_eq_none
    (noAliases : compiler.configuration.tools.mapper = AliasTable.empty.map) (owner : EntityId)
    (name : String) : compiler.scope.mapper owner name = none := by
  change compiler.configuration.tools.mapper owner name = none
  rw [noAliases, AliasTable.map_empty]

/-- A query with plain joins for the paths that a filter needs, whose predicate mirrors the filter
with conditions where the selectors land. -/
structure Lands (compiler : QueryCompiler) (filter : Filter) (query : Query) : Prop where
  root_eq : query.root = compiler.root
  projection_eq : query.projection = compiler.projection
  distinct_eq : query.distinct = compiler.configuration.options.distinct
  joined : query.Joined compiler.metadata
  inner : ∀ join ∈ query.joins, join.kind = .inner
  paths : ∀ path, path ∈ routesOf query.joins ↔ path ∈ compiler.scope.joinedPathsOf filter
  mirrored : ∃ predicate, query.filter = some predicate ∧
    filter.Mirrors (compiler.scope.Landed query) predicate

/-- Without a strategy a filter is compiled to a query with its conditions in place. -/
theorem lands_of_compile_eq_ok (builtIn : compiler.configuration.tools.strategy = none)
    (h : compiler.compile filter = .ok query) : compiler.Lands filter query := by
  rcases exists_of_compileInto_eq_ok h with ⟨predicate, next, compiled, rfl⟩
  rw [Configuration.compile, builtIn] at compiled
  let start : Query := { root := compiler.root, projection := compiler.projection }
  have start_joined : start.Joined compiler.metadata := Query.joined_of_joins_eq_nil rfl rfl
  have compiled' : compiler.scope.compile none filter start = (.ok predicate, next) := compiled
  have keeps : Compile.Keeps (Scope.Grown compiler.metadata start)
      (compiler.scope.compile none filter) :=
    compiler.scope.compile_grown (by rintro _ ⟨⟩) rfl filter
  have grown := keeps start ⟨start_joined, .refl start⟩
  rw [compiled'] at grown
  rcases Scope.compile_landed rfl rfl rfl start_joined compiled' with ⟨mirrors, paths_iff⟩
  constructor
  · exact grown.extended.root_eq
  · exact grown.extended.projection_eq
  · have distinct_eq : next.distinct = false := grown.extended.distinct_eq
    simp [distinct_eq]
  · exact grown.joined.congr rfl rfl rfl
  · exact fun join member => (grown.extended.plain rfl member).1
  · exact paths_iff
  · refine ⟨predicate, rfl, mirrors.mono ?_⟩
    intro node _ leaf landed
    rcases landed.condition with ⟨operator, target, meaning, located, landing_eq, condition_eq⟩
    exact ⟨⟨operator, target, meaning, located.congr rfl rfl, landing_eq, condition_eq⟩,
      landed.joins⟩

/-- Without a strategy a filter compiles into a fresh query exactly if its groups have operators
and its comparisons compile on their own. -/
theorem exists_compile_eq_ok_iff (builtIn : compiler.configuration.tools.strategy = none) :
    (∃ query, compiler.compile filter = .ok query) ↔
      filter.Regular ∧ ∀ node ∈ filter.comparisons, compiler.scope.Compiles node := by
  let start : Query := { root := compiler.root, projection := compiler.projection }
  have start_joined : start.Joined compiler.metadata := Query.joined_of_joins_eq_nil rfl rfl
  have compiles_iff :
      (∃ predicate next, compiler.scope.compile none filter start = (.ok predicate, next)) ↔ _ :=
    Scope.exists_compile_eq_ok_iff rfl rfl rfl start_joined
  have compile_eq : compiler.configuration.compile compiler.metadata (.root compiler.root)
      compiler.steps filter = compiler.scope.compile none filter := by
    rw [Configuration.compile, builtIn, scope]
  rw [← compiles_iff]
  constructor
  · rintro ⟨query, compiled⟩
    rcases exists_of_compileInto_eq_ok compiled with ⟨predicate, next, compiled, -⟩
    exact ⟨predicate, next, compile_eq ▸ compiled⟩
  · rintro ⟨predicate, next, compiled⟩
    rw [← compile_eq] at compiled
    unfold compile compileInto
    dsimp only
    rw [compiled]
    exact ⟨_, rfl⟩

end QueryCompiler

end FilterQuery
