import FilterQuery.Proofs.Compile.Alone

/-!
# What operations leave as it was

A compile appends plain joins to a query and changes nothing else, and those that it made before
a failure are all that the failure leaves behind.  Joining ahead of a compile changes nothing if
it fails; otherwise it appends a join, or gives the join that is there another kind and, if one
is given, another alias.
-/

namespace FilterQuery

variable {metadata : Metadata} {query : Query}

/-! ## Compiles -/

/-- A filter keeps the joins of a query numbered, and only adds plain ones, whether its compile
succeeds or fails. -/
theorem Scope.compile_continued {scope : Scope} {before : Query}
    (has : before.Has scope.origin.context) (filter : Filter) :
    Compile.Keeps (Continued before) (scope.compile none filter) := by
  rw [compile_none]
  exact filter.compileWith_keeps fun node _ => compileBuiltin_continued has node

theorem Configuration.extends_compile {configuration : Configuration}
    (builtIn : configuration.tools.strategy = none) (numbered : query.Numbered) {origin : Origin}
    (has : query.Has origin.context) (steps : Nat) (filter : Filter) :
    query.Extends (configuration.compile metadata origin steps filter query).2 := by
  have continued : Scope.Continued query
      ((configuration.scope metadata origin steps).compile none filter query).2 :=
    Scope.compile_continued has filter query ⟨numbered, .refl query⟩
  rw [Configuration.compile, builtIn]
  exact continued.extended

/-- A predicate compiler only adds plain joins to a query, whether it succeeds or fails. -/
theorem PredicateCompiler.extends_compile (compiler : PredicateCompiler)
    (builtIn : compiler.configuration.tools.strategy = none) (numbered : query.Numbered)
    (filter : Filter) : query.Extends (compiler.compile filter query).2 := by
  rw [compile_apply]
  split
  · exact .refl query
  · rename_i origin origin_eq
    have has := Query.has_of_entityOf_eq_some (entityOf_of_origin_eq_ok origin_eq)
    exact Configuration.extends_compile builtIn numbered has compiler.steps filter

/-- A query compiler only adds plain joins to a query, gives it its projection and its predicate,
and makes it distinct if its options ask for it. -/
theorem QueryCompiler.frame_of_compileInto_eq_ok {compiler : QueryCompiler}
    (builtIn : compiler.configuration.tools.strategy = none) (numbered : query.Numbered)
    {filter : Filter} {result : Query} (h : compiler.compileInto query filter = .ok result) :
    result.root = query.root ∧ result.projection = compiler.projection ∧
      result.distinct = (query.distinct || compiler.configuration.options.distinct) ∧
      ∃ added, result.joins = query.joins ++ added ∧
        ∀ join ∈ added, join.kind = .inner ∧ join.label = none := by
  rcases exists_of_compileInto_eq_ok h with ⟨predicate, next, compiled, rfl⟩
  let before : Query := { query with projection := compiler.projection }
  have before_numbered : before.Numbered := numbered.projecting compiler.projection
  have has : before.Has (Origin.root query.root).context := trivial
  have extended : before.Extends (compiler.configuration.compile compiler.metadata
      (.root query.root) compiler.steps filter before).2 :=
    Configuration.extends_compile builtIn before_numbered has _ _
  rw [compiled] at extended
  exact ⟨extended.root_eq, extended.projection_eq,
    congrArg (· || compiler.configuration.options.distinct) extended.distinct_eq, extended.joins_eq⟩

/-! ## Joins ahead of a compile -/

namespace Query

/-- Joins an association of a context in place.  All checks come before the first change. -/
def joinInPlace (metadata : Metadata) (parent : Context) (association : String) (kind : JoinKind)
    (label : Option String) : Compile JoinId := do
  let nowhere := CompileError.unknownProperty association parent.display
  let some owner := (← get).entityOf parent | Compile.reject nowhere
  let some target ← Compile.ofExcept
    (associationTarget metadata owner (Text.segments association)) | Compile.reject nowhere
  let id ← modifyGet fun query => query.ensureJoin parent association target
  modify fun query => query.establish id kind label
  pure id

/-- In place a join is what it is on its own, and a failure leaves the query as it was. -/
theorem joinInPlace_apply (query : Query) (metadata : Metadata) (parent : Context)
    (association : String) (kind : JoinKind) (label : Option String) :
    joinInPlace metadata parent association kind label query =
      match query.join metadata parent association kind label with
      | .error error => (.error (.rejected error), query)
      | .ok (id, next) => (.ok id, next) := by
  have read : (get : Compile Query) query = (.ok query, query) := rfl
  rw [joinInPlace, Query.join, Compile.bind_apply_of_ok read]
  cases query.entityOf parent with
  | none => rfl
  | some owner =>
      dsimp only
      cases associationTarget metadata owner (Text.segments association) with
      | error error => rfl
      | ok target? => cases target? <;> rfl

/-- What joining ahead of a compile does to a query: it appends a join with a new parent and path,
or changes the kind, and the alias if one is given, of the one join that has them. -/
inductive JoinEffect (query : Query) (parent : Context) (path : String) (kind : JoinKind)
    (label : Option String) : JoinId → Query → Prop
  | made (target : JoinTarget)
      (absent : ∀ join ∈ query.joins, join.parent = parent → join.path ≠ path) :
      JoinEffect query parent path kind label query.joins.length
        { query with
          joins := query.joins ++
            [{ id := query.joins.length, parent, path, target, kind, label }]
          index := query.index.put (parent, path) query.joins.length }
  | found {id : JoinId} {before : Join} (join_eq : query.joins[id]? = some before)
      (parent_eq : before.parent = parent) (path_eq : before.path = path)
      (only : ∀ join ∈ query.joins, join.parent = parent → join.path = path → join = before) :
      JoinEffect query parent path kind label id
        { query with
          joins := query.joins.set id { before with kind, label := label <|> before.label } }

/-- A join that is ensured and then established is appended, or changed in its kind and its
alias. -/
theorem Numbered.joinEffect (numbered : query.Numbered) (parent : Context) (path : String)
    (target : JoinTarget) (kind : JoinKind) (label : Option String) :
    query.JoinEffect parent path kind label (query.ensureJoin parent path target).1
      ((query.ensureJoin parent path target).2.establish
        (query.ensureJoin parent path target).1 kind label) := by
  cases h : query.index.get? (parent, path) with
  | some id =>
      rcases numbered.get?_index_iff.mp h with ⟨before, join_eq, parent_eq, path_eq⟩
      rw [ensureJoin_of_get?_eq_some h, establish, List.modify_eq_set_getElem?, join_eq]
      refine .found join_eq parent_eq path_eq ?_
      intro join member same_parent same_path
      rcases List.mem_iff_getElem?.mp member with ⟨other, other_eq⟩
      obtain rfl := numbered.eq_of_key_eq other_eq join_eq (same_parent.trans parent_eq.symm)
        (same_path.trans path_eq.symm)
      exact Option.some.inj (other_eq.symm.trans join_eq)
  | none =>
      have made_eq : query.ensureJoin parent path target = (query.joins.length,
          { query with
            joins := query.joins ++ [{ id := query.joins.length, parent, path, target }]
            index := query.index.put (parent, path) query.joins.length }) := by
        simp [Query.ensureJoin, h]
      rw [made_eq, establish]
      dsimp only
      rw [List.modify_eq_set_getElem?, List.getElem?_concat_length, Option.map_eq_map,
        Option.map_some, Option.getD_some, List.set_append_right _ _ (Nat.le_refl _), Nat.sub_self,
        List.set_cons_zero, Option.orElse_eq_orElse, Option.orElse_eq_or, Option.or_none]
      refine .made target ?_
      intro join member parent_eq path_eq
      rcases List.mem_iff_getElem?.mp member with ⟨id, join_eq⟩
      have found := numbered.get?_index_iff.mpr ⟨join, join_eq, parent_eq, path_eq⟩
      cases h.symm.trans found

/-- Without a strategy, compiles of predicates only append plain joins to a query, whether they
succeed or fail.  So do compiles into the query that succeed, but for its projection, its filter
and its distinction, which is turned on if the options ask for it and never off.  Joining in
place leaves the query as it was if it fails, and otherwise appends or changes a single join. -/
theorem JoinTable.frame (table : query.JoinTable) :
    (∀ compiler : PredicateCompiler, compiler.configuration.tools.strategy = none →
      ∀ filter, query.Extends (compiler.compile filter query).2) ∧
    (∀ compiler : QueryCompiler, compiler.configuration.tools.strategy = none →
      ∀ filter result, compiler.compileInto query filter = .ok result →
        result.root = query.root ∧ result.projection = compiler.projection ∧
          result.distinct = (query.distinct || compiler.configuration.options.distinct) ∧
          ∃ added, result.joins = query.joins ++ added ∧
            ∀ join ∈ added, join.kind = .inner ∧ join.label = none) ∧
    (∀ metadata parent association kind label,
      (∀ error, query.join metadata parent association kind label = .error error →
        joinInPlace metadata parent association kind label query =
          (.error (.rejected error), query)) ∧
      ∀ id next, query.join metadata parent association kind label = .ok (id, next) →
        joinInPlace metadata parent association kind label query = (.ok id, next) ∧
          query.JoinEffect parent association kind label id next) := by
  have numbered := table.numbered
  refine ⟨fun compiler builtIn filter => compiler.extends_compile builtIn numbered filter,
    fun _ builtIn _ _ compiled => QueryCompiler.frame_of_compileInto_eq_ok builtIn numbered compiled,
    fun metadata parent association kind label => ⟨?_, ?_⟩⟩
  · intro error refused
    rw [joinInPlace_apply, refused]
  · intro id next joined
    refine ⟨by rw [joinInPlace_apply, joined], ?_⟩
    rcases exists_of_join_eq_ok joined with ⟨owner, target, -, -, rfl, rfl⟩
    exact numbered.joinEffect parent association target kind label

/-- A failure half way leaves a join behind; the one made ahead is shared and keeps its alias
when it is joined again. -/
theorem JoinTable.frame_departments :
    let compiler : PredicateCompiler := { metadata := company.metadata, context := some .root }
    let filter : Filter := .group .and [.comparison ⟨"members.skills", "==", ["lean"]⟩,
      .comparison ⟨"members.wage", "==", ["1"]⟩]
    departments.JoinTable ∧
    (∃ stop last, compiler.compile filter departments = (.error stop, last) ∧
      departments.Extends last ∧ last.joins.map (fun join => (join.path, join.kind, join.label)) =
        [("members", .left, some "m"), ("skills", .inner, none)]) ∧
    ∃ id last, joinInPlace company.metadata .root "members" .inner none departments =
        (.ok id, last) ∧
      departments.JoinEffect .root "members" .inner none id last ∧
      last.joins.map (fun join => (join.path, join.kind, join.label)) =
        [("members", .inner, some "m")] := by
  intro compiler filter
  have table := departments_joined.joinTable
  obtain ⟨visits, -, joins⟩ := table.frame
  refine ⟨table, ?_, ?_⟩
  · have computed : (compiler.compile filter departments).1.isOk = false ∧
        (compiler.compile filter departments).2.joins.map
          (fun join => (join.path, join.kind, join.label)) =
            [("members", .left, some "m"), ("skills", .inner, none)] := by decide +kernel
    have builtIn : compiler.configuration.tools.strategy = none := rfl
    have extended := visits compiler builtIn filter
    generalize compiler.compile filter departments = visited at computed extended ⊢
    rcases visited with ⟨stop | predicate, last⟩
    · exact ⟨stop, last, rfl, extended, computed.2⟩
    · cases computed.1
  · let last : Query :=
      { departments with
        joins := [{ id := 0, parent := .root, path := "members", target := .entity ⟨2⟩,
                    label := some "m" }] }
    have joined : departments.join company.metadata .root "members" .inner none = .ok (0, last) :=
      rfl
    rcases (joins company.metadata .root "members" .inner none).2 0 last joined with
      ⟨inPlace_eq, effect⟩
    exact ⟨0, last, inPlace_eq, effect, rfl⟩

end Query

end FilterQuery
