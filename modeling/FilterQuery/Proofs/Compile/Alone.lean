import FilterQuery.Proofs.Compile.Comparisons
import FilterQuery.Proofs.Compile.Forms
import FilterQuery.Proofs.Query.Runs
import FilterQuery.Proofs.Selector.Retraced
import FilterQuery.Proofs.Store.Conformity

/-!
# Comparisons in company

A comparison of a tree is compiled in a query that has the joins of the comparisons in front
of it, so its own joins get other numbers than they would without these.  The numbers are all
that changes.  Alone, the comparison stops with the same error, or it asks the same of the
attribute at the end of the same way from the root.
-/

namespace FilterQuery

/-! ## Leaves without numbers -/

/-- A leaf of a predicate, with the way to its attribute in place of the number of a join. -/
inductive Clause
  | compare (way : Way) (op : CompareOp) (value : Value)
  | like (way : Way) (pattern : String) (negated : Bool)
  | isNull (way : Way) (negated : Bool)
  | isIn (way : Way) (values : List Value) (negated : Bool)
  deriving DecidableEq

namespace Query

variable {query next : Query}

/-- The way to an attribute, if its context is one of the query. -/
def way? (query : Query) (path : AttributePath) : Option Way :=
  match path.root with
  | .root => some ⟨[], path.segments⟩
  | .join id => (routesOf query.joins)[id]?.map (⟨·, path.segments⟩)

/-- What a leaf asks of the attribute at the end of a way; groups are no leaves. -/
def clause? (query : Query) : Predicate → Option Clause
  | .compare path op value => (query.way? path).map (.compare · op value)
  | .like path pattern negated => (query.way? path).map (.like · pattern negated)
  | .isNull path negated => (query.way? path).map (.isNull · negated)
  | .isIn path values negated => (query.way? path).map (.isIn · values negated)
  | .and _ => none
  | .or _ => none

theorem way?_eq_some (path : AttributePath) (has : query.Has path.root) :
    query.way? path = some (query.way path) := by
  rcases path with ⟨context, segments⟩
  cases context with
  | root => rfl
  | join id => simp [way?, way, query.getElem?_routesOf_joins has]

/-- Later joins do not change the ways to the attributes that were there. -/
theorem Continues.way?_eq_some (continues : query.Continues next) {path : AttributePath} {way : Way}
    (h : query.way? path = some way) : next.way? path = some way := by
  rcases continues with ⟨added, joins_eq, -⟩
  rcases path with ⟨context, segments⟩
  cases context with
  | root => exact h
  | join id =>
      rcases Option.map_eq_some_iff.mp h with ⟨route, route_eq, rfl⟩
      have inside : id < query.joins.length := by
        simpa using (List.getElem?_eq_some_iff.mp route_eq).1
      simp [way?, joins_eq, getElem?_routesOf_append added inside, route_eq]

theorem Continues.clause?_eq_some (continues : query.Continues next) {leaf : Predicate}
    {clause : Clause} (h : query.clause? leaf = some clause) : next.clause? leaf = some clause := by
  cases leaf with
  | and => cases h
  | or => cases h
  | _ =>
      rcases Option.map_eq_some_iff.mp h with ⟨way, way_eq, rfl⟩
      simp [clause?, continues.way?_eq_some way_eq]

theorem leafCount_of_clause?_eq_some {leaf : Predicate} {clause : Clause}
    (h : query.clause? leaf = some clause) : leaf.leafCount = 1 := by
  cases leaf with
  | and => cases h
  | or => cases h
  | _ => rfl

end Query

/-- A condition asks the same of any attribute at the end of the same way. -/
theorem Literals.Form.exists_clause {literals : Literals} {operator : ComparisonOperator}
    {target : Attribute} {arguments : List String} {predicate : Predicate} {query alone : Query}
    {path : AttributePath} {way : Way} (form : literals.Form operator target arguments predicate)
    (way_eq : query.way? path = some way) (alone_eq : alone.way? target.path = some way) :
    ∃ clause, query.clause? (predicate.withPath path) = some clause ∧
      alone.clause? predicate = some clause := by
  cases form <;> simp [Predicate.withPath, Query.clause?, way_eq, alone_eq]

mutual
/-- A predicate that mirrors a filter has a leaf for each comparison. -/
theorem Filter.Mirrors.leafCount_eq {related : Comparison → Predicate → Prop} :
    {filter : Filter} → {predicate : Predicate} → filter.Mirrors related predicate →
      (∀ node leaf, related node leaf → leaf.leafCount = 1) →
        predicate.leafCount = filter.comparisons.length
  | _, _, .comparison leaf, single => single _ _ leaf
  | _, _, .logical meaning each, single => by
      rename_i operator _ _
      cases operator with
      | and => exact each.leafCount_eq single
      | or => exact each.leafCount_eq single

theorem Filter.MirrorsEach.leafCount_eq {related : Comparison → Predicate → Prop} :
    {children : List Filter} → {predicates : List Predicate} →
      MirrorsEach related children predicates →
        (∀ node leaf, related node leaf → leaf.leafCount = 1) →
          Predicate.leafCountOfChildren predicates = (comparisonsOfChildren children).length
  | _, _, .nil, _ => rfl
  | _, _, .cons first others, single => by
      rw [comparisonsOfChildren, Predicate.leafCountOfChildren, List.length_append,
        first.leafCount_eq single, others.leafCount_eq single]
end

/-- A query whose joins are numbered may ask for something else. -/
theorem Query.Numbered.projecting {query : Query} (numbered : query.Numbered)
    (projection : Projection) : ({ query with projection } : Query).Numbered :=
  ⟨numbered.id_eq, numbered.get?_index_iff, numbered.parent_lt⟩

/-! ## One comparison -/

namespace Compile

/-- Results on two queries that are the same but for the numbers of joins. -/
inductive Matches : Except Stop Predicate × Query → Except Stop Predicate × Query → Prop
  | stop (stop : Stop) (query alone : Query) : Matches (.error stop, query) (.error stop, alone)
  | leaf {leaf aloneLeaf : Predicate} {query alone : Query} {clause : Clause}
      (clause_eq : query.clause? leaf = some clause)
      (alone_eq : alone.clause? aloneLeaf = some clause) :
      Matches (.ok leaf, query) (.ok aloneLeaf, alone)

end Compile

namespace Scope

variable {scope : Scope} {before query next : Query}

/-- A query with numbered joins that has grown from another one. -/
structure Continued (before query : Query) : Prop where
  numbered : query.Numbered
  extended : before.Extends query

/-- A comparison keeps the joins of a query numbered, and only adds plain ones. -/
theorem compileBuiltin_continued (has : before.Has scope.origin.context) (node : Comparison) :
    Compile.Keeps (Continued before) (scope.compileBuiltin node) := by
  apply compileBuiltin_keeps
  apply resolve_keeps
  intro query continued
  have grounded : (Selector.resolve scope.metadata scope.mapper scope.steps query scope.origin
      node.selector).Holds (Selector.Walk.Grounded query) (Selector.EndedGrounded query) :=
    Selector.resolve_grounded continued.numbered (continued.extended.continues.has has) _ _ _
  exact grounded.imp
    (fun walk grounded => ⟨grounded.numbered, continued.extended.trans grounded.grown⟩)
    (fun outcome last ended => ⟨ended.numbered, continued.extended.trans ended.grown⟩)

/-- A selector stops for the same reason, or leads the same way to an attribute of the same type,
as it would without the joins that have been added. -/
theorem resolve_matches (numbered : before.Numbered) (has : before.Has scope.origin.context)
    (continued : Continued before query) (selector : String) :
    (∃ stop last alone, scope.resolve selector query = (.error stop, last) ∧
      scope.resolve selector before = (.error stop, alone)) ∨
    ∃ leaf last aloneLeaf alone way, scope.resolve selector query = (.ok leaf, last) ∧
      scope.resolve selector before = (.ok aloneLeaf, alone) ∧ leaf.type = aloneLeaf.type ∧
      last.way? leaf.path = some way ∧ alone.way? aloneLeaf.path = some way := by
  have continues := continued.extended.continues
  have kept : (Selector.resolve scope.metadata scope.mapper scope.steps query scope.origin
      selector).Holds (Selector.Walk.Grounded query) (Selector.EndedGrounded query) :=
    Selector.resolve_grounded continued.numbered (continues.has has) _ _ _
  have aloneKept : (Selector.resolve scope.metadata scope.mapper scope.steps before scope.origin
      selector).Holds (Selector.Walk.Grounded before) (Selector.EndedGrounded before) :=
    Selector.resolve_grounded numbered has _ _ _
  have retraces : (Selector.resolve scope.metadata scope.mapper scope.steps query scope.origin
      selector).Retraces query
        (Selector.resolve scope.metadata scope.mapper scope.steps before scope.origin selector) :=
    Selector.resolve_retraces numbered continues continued.numbered has _ _
  rw [resolve_apply, resolve_apply]
  generalize Selector.resolve _ _ _ query _ _ = progress at kept retraces ⊢
  generalize Selector.resolve _ _ _ before _ _ = aloneProgress at aloneKept retraces ⊢
  cases retraces with
  | walking retraces => exact .inl ⟨_, _, _, rfl, rfl⟩
  | @stopped outcome aloneOutcome last alone sight_eq =>
      cases outcome with
      | error error =>
          cases aloneOutcome with
          | error aloneError =>
              cases sight_eq
              exact .inl ⟨_, _, _, rfl, rfl⟩
          | ok aloneLeaf => cases sight_eq
      | ok leaf =>
          cases aloneOutcome with
          | error aloneError => cases sight_eq
          | ok aloneLeaf =>
              rcases Prod.mk.inj (Except.ok.inj sight_eq) with ⟨way_eq, type_eq⟩
              exact .inr ⟨leaf, last, aloneLeaf, alone, _, rfl, rfl, type_eq,
                last.way?_eq_some leaf.path (kept.has leaf rfl),
                way_eq ▸ alone.way?_eq_some aloneLeaf.path (aloneKept.has aloneLeaf rfl)⟩

/-- A comparison is compiled as it would be without the joins that have been added. -/
theorem compileBuiltin_matches (numbered : before.Numbered)
    (has : before.Has scope.origin.context) (continued : Continued before query)
    (node : Comparison) :
    Compile.Matches (scope.compileBuiltin node query) (scope.compileBuiltin node before) := by
  unfold compileBuiltin
  cases ComparisonOperator.parse? node.operator with
  | none => exact .stop _ query before
  | some operator =>
      rcases resolve_matches numbered has continued node.selector with
        ⟨stop, last, alone, resolved, aloneResolved⟩ |
        ⟨leaf, last, aloneLeaf, alone, way, resolved, aloneResolved, type_eq, way_eq, aloneWay_eq⟩
      · dsimp only
        rw [Compile.bind_apply_of_error resolved, Compile.bind_apply_of_error aloneResolved]
        exact .stop _ _ _
      · dsimp only
        rw [Compile.bind_apply_of_ok resolved, Compile.bind_apply_of_ok aloneResolved,
          Literals.condition_withPath type_eq]
        cases condition_eq : scope.literals.condition operator node.operator aloneLeaf
            node.arguments with
        | error error => exact .stop _ _ _
        | ok predicate =>
            have form := Literals.form_of_condition_eq_ok condition_eq
            rcases form.exists_clause way_eq aloneWay_eq with ⟨clause, clause_eq, aloneClause_eq⟩
            exact .leaf clause_eq aloneClause_eq

/-! ## Trees -/

/-- A leaf that is, but for the number of a join, what a comparison is compiled to on its own. -/
def StandsAlone (scope : Scope) (before query : Query) (node : Comparison) (leaf : Predicate) :
    Prop :=
  ∃ aloneLeaf alone clause, scope.compileBuiltin node before = (.ok aloneLeaf, alone) ∧
    query.clause? leaf = some clause ∧ alone.clause? aloneLeaf = some clause

/-- The predicate of a filter mirrors it, with the leaves of the comparisons on their own. -/
theorem compile_mirrors_alone (numbered : before.Numbered)
    (has : before.Has scope.origin.context) {filter : Filter} {predicate : Predicate}
    (h : scope.compile none filter before = (.ok predicate, next)) :
    filter.Mirrors (scope.StandsAlone before next) predicate := by
  have establishes : Establishes scope.compileBuiltin (Continued before)
      (scope.StandsAlone before) filter.comparisons := by
    constructor
    · exact fun node _ => compileBuiltin_continued has node
    · intro node _ query last leaf continued compiled
      have matched := compileBuiltin_matches numbered has continued node
      rw [compiled] at matched
      generalize alone_eq : scope.compileBuiltin node before = result at matched
      cases matched with
      | leaf clause_eq aloneClause_eq => exact ⟨_, _, _, alone_eq, clause_eq, aloneClause_eq⟩
    · intro later _ node leaf query
      rintro ⟨continued, aloneLeaf, alone, clause, alone_eq, clause_eq, aloneClause_eq⟩
      have kept := compileBuiltin_continued has later query continued
      have more := compileBuiltin_continued (continued.extended.continues.has has) later query
        ⟨continued.numbered, .refl query⟩
      exact ⟨kept, aloneLeaf, alone, clause, alone_eq,
        more.extended.continues.clause?_eq_some clause_eq, aloneClause_eq⟩
  rw [compile_none] at h
  exact filter.compileWith_mirrors establishes ⟨numbered, .refl before⟩ h

end Scope

/-! ## Compilers -/

/-- A query for departments, whose members have been joined under an alias. -/
def departments : Query where
  root := ⟨1⟩
  projection := .count
  joins := [{ id := 0, parent := .root, path := "members", target := .entity ⟨2⟩, kind := .left,
              label := some "m" }]
  index := [((.root, "members"), 0)]

theorem departments_joined : departments.Joined company.metadata :=
  (Query.joined_of_joins_eq_nil rfl rfl : (Query.count ⟨1⟩).Joined company.metadata).join
    (show (Query.count ⟨1⟩).join company.metadata .root "members" .left (some "m") =
      .ok (0, departments) from rfl)

namespace QueryCompiler

variable {compiler : QueryCompiler} {query result : Query}

/-- What a compile of a comparison into a query is. -/
theorem compileInto_comparison (builtIn : compiler.configuration.tools.strategy = none)
    (query : Query) (node : Comparison) :
    compiler.compileInto query (.comparison node) =
      match (compiler.configuration.scope compiler.metadata (.root query.root)
        compiler.steps).compileBuiltin node { query with projection := compiler.projection } with
      | (.error stop, _) => .error stop
      | (.ok leaf, next) =>
          .ok { next with
            filter := some leaf
            distinct := next.distinct || compiler.configuration.options.distinct } := by
  have compile_eq : compiler.configuration.compile compiler.metadata (.root query.root)
      compiler.steps (.comparison node) =
        (compiler.configuration.scope compiler.metadata (.root query.root)
          compiler.steps).compileBuiltin node := by
    rw [Configuration.compile, builtIn, Scope.compile_none, Filter.compileWith]
  unfold compileInto
  exact compile_eq ▸ rfl

/-- The predicate of a filter mirrors it, with a leaf for each comparison.  Whatever surrounds a
comparison, its leaf is the one that it is compiled to alone into the same query, but for the
numbers of joins: both ask the same at the end of the same way from the root. -/
theorem mirrors_alone_of_compileInto (table : query.JoinTable)
    (builtIn : compiler.configuration.tools.strategy = none) {filter : Filter}
    (h : compiler.compileInto query filter = .ok result) :
    ∃ predicate, result.filter = some predicate ∧
      predicate.leafCount = filter.comparisons.length ∧
      filter.Mirrors (fun node leaf => ∃ alone aloneLeaf clause,
        compiler.compileInto query (.comparison node) = .ok alone ∧
          alone.filter = some aloneLeaf ∧ result.clause? leaf = some clause ∧
          alone.clause? aloneLeaf = some clause) predicate := by
  rcases exists_of_compileInto_eq_ok h with ⟨predicate, next, compiled, rfl⟩
  rw [Configuration.compile, builtIn] at compiled
  let before : Query := { query with projection := compiler.projection }
  have numbered : before.Numbered := table.numbered.projecting compiler.projection
  let scope := compiler.configuration.scope compiler.metadata (.root query.root) compiler.steps
  have has : before.Has scope.origin.context := trivial
  have mirrors := Scope.compile_mirrors_alone numbered has compiled
  refine ⟨predicate, rfl, mirrors.leafCount_eq ?_, mirrors.mono ?_⟩
  · rintro node leaf ⟨aloneLeaf, alone, clause, -, clause_eq, -⟩
    exact Query.leafCount_of_clause?_eq_some clause_eq
  · rintro node - leaf ⟨aloneLeaf, alone, clause, alone_eq, clause_eq, aloneClause_eq⟩
    have aloneCompiled := compileInto_comparison builtIn query node
    rw [alone_eq] at aloneCompiled
    exact ⟨_, aloneLeaf, clause, aloneCompiled, rfl, clause_eq, aloneClause_eq⟩

theorem mirrors_alone_of_compileInto_departments :
    let compiler : QueryCompiler := .select company.metadata ⟨1⟩
    let filter : Filter := .group .or [.comparison ⟨"m.skills", "==", ["lean"]⟩,
      .group .and [.comparison ⟨"members.chief.chief.id", "=gt=", ["0"]⟩]]
    ∃ result predicate, compiler.compileInto departments filter = .ok result ∧
      result.joins.map (fun join => (join.id, join.path)) =
        [(0, "members"), (1, "skills"), (2, "chief"), (3, "chief")] ∧
      result.filter = some predicate ∧ predicate.leafCount = 2 ∧
      filter.Mirrors (fun node leaf => ∃ alone aloneLeaf clause,
        compiler.compileInto departments (.comparison node) = .ok alone ∧
          alone.filter = some aloneLeaf ∧ result.clause? leaf = some clause ∧
          alone.clause? aloneLeaf = some clause) predicate := by
  intro compiler filter
  have joins_eq : (compiler.compileInto departments filter).toOption.map (fun result =>
      result.joins.map fun join => (join.id, join.path)) =
        some [(0, "members"), (1, "skills"), (2, "chief"), (3, "chief")] := by decide +kernel
  cases compiled : compiler.compileInto departments filter with
  | error stop =>
      rw [compiled] at joins_eq
      cases joins_eq
  | ok result =>
      rw [compiled] at joins_eq
      rcases mirrors_alone_of_compileInto departments_joined.joinTable rfl compiled with
        ⟨predicate, filter_eq, count_eq, mirrors⟩
      exact ⟨result, predicate, rfl, Option.some.inj joins_eq, filter_eq, count_eq, mirrors⟩

end QueryCompiler

end FilterQuery
