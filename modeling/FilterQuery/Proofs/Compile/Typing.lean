import FilterQuery.Proofs.Compile.Arguments
import FilterQuery.Proofs.Selector.Exact
import FilterQuery.Proofs.Store.Soundness
import FilterQuery.Proofs.Value.Kinds

/-!
# Compiled literals are well typed

The attribute of every leaf has the type that metadata gives for its route.  With the usual
reading of arguments, however it reads dates, the literals of the leaf are of the kind that this
type asks for, only types with an order are ordered, and only texts are matched with patterns.
-/

namespace FilterQuery

/-! ## The type at the end of a route -/

namespace Metadata

variable {metadata : Metadata}

/-- The type at a property where a selector ends. -/
def endType (metadata : Metadata) : PropertyKind → Except CompileError AttributeType
  | .attribute type => .ok type
  | .embedded inner => .ok (.object (metadata.displayName inner) false)
  | .association target _ => Selector.referenceType metadata target
  | .elements type => .ok type

theorem endType_of_leafType?_eq_some {kind : PropertyKind} {type : AttributeType}
    (h : metadata.leafType? kind = some type) : metadata.endType kind = .ok type := by
  rcases kind with ⟨found⟩ | ⟨inner⟩ | ⟨target, cardinality⟩ | ⟨found⟩
  · exact congrArg Except.ok (Option.some.inj h)
  · exact congrArg Except.ok (Option.some.inj h)
  · cases cardinality with
    | collection => cases h
    | single =>
        change (Selector.referenceType metadata target).toOption = some type at h
        change Selector.referenceType metadata target = .ok type
        cases found : Selector.referenceType metadata target with
        | error error =>
            rw [found] at h
            cases h
        | ok other =>
            rw [found] at h
            exact congrArg Except.ok (Option.some.inj h)
  · cases h

/-- A place has the types of what is behind it. -/
theorem selectorType_append {place reached : Place} {path more : List String}
    (located : metadata.locate place path = some reached) (some : more ≠ []) :
    metadata.selectorType place.owner (path ++ more) =
      metadata.selectorType reached.owner more := by
  induction path generalizing place with
  | nil =>
      cases located
      rfl
  | cons segment rest ih =>
      rcases List.exists_cons_of_ne_nil (List.append_ne_nil_of_right_ne_nil rest some) with
        ⟨next, others, rest_eq⟩
      rw [List.cons_append, rest_eq, selectorType, ← rest_eq]
      rw [locate] at located
      split at located
      · rename_i inner property
        rw [property]
        exact ih located
      · rename_i target cardinality property
        rw [property]
        exact ih located
      · cases located

/-- A path through composites has the type of the property at its end. -/
theorem selectorType_of_propertyAt?_eq_some {owner : EntityId} {path : List String}
    {kind : PropertyKind} (h : metadata.propertyAt? owner path = some kind) :
    metadata.selectorType owner path = metadata.endType kind := by
  rcases metadata.exists_of_propertyAt?_eq_some h with
    ⟨front, last, inner, rfl, composite, property⟩
  let start : Place := ⟨owner, []⟩
  have located : metadata.locate start front = some ⟨inner, start.embedded ++ front⟩ :=
    metadata.locate_of_compositeAt? composite
  rw [selectorType_append located (List.cons_ne_nil last []), selectorType, property]
  cases kind <;> rfl

/-- Metadata whose enumerations all have constants that can be told apart by their places. -/
def ConstantsFit (metadata : Metadata) : Prop :=
  ∀ owner name type, (metadata.property owner name = some (.attribute type) ∨
    metadata.property owner name = some (.elements type)) → type.ConstantsFit

theorem ConstantsFit.referenceType (fit : metadata.ConstantsFit) {target : EntityId}
    {type : AttributeType} (h : Selector.referenceType metadata target = .ok type) :
    type.ConstantsFit := by
  unfold Selector.referenceType at h
  split at h
  · cases h
  · rename_i identifier _
    split at h
    · rename_i found property
      cases h
      exact show found.ConstantsFit from fit _ _ _ (.inl property)
    · cases h

theorem ConstantsFit.selectorType (fit : metadata.ConstantsFit) {owner : EntityId}
    {path : List String} {type : AttributeType}
    (h : metadata.selectorType owner path = .ok type) : type.ConstantsFit := by
  fun_induction metadata.selectorType owner path with
  | case1 => cases h
  | case2 => cases h
  | case3 owner last found property =>
      cases h
      exact fit _ _ _ (.inl property)
  | case4 =>
      cases h
      trivial
  | case5 => exact fit.referenceType h
  | case6 owner last found property =>
      cases h
      exact fit _ _ _ (.inr property)
  | case7 => cases h
  | case8 => cases h
  | case9 _ _ _ _ _ _ ih => exact ih h
  | case10 _ _ _ _ _ _ _ ih => exact ih h
  | case11 => cases h

end Metadata

/-- The type of an attribute of a query is the one that metadata gives for its route. -/
theorem Query.Located.selectorType_eq {metadata : Metadata} {query : Query}
    {path : AttributePath} {type : AttributeType} (located : query.Located metadata path type)
    (joined : query.Joined metadata) :
    metadata.selectorType query.root (query.route path.root ++ path.segments) = .ok type := by
  -- a join stands for the property at the end of its path
  have joinType_eq {id : JoinId} {join : Join} (join_eq : query.joins[id]? = some join) :
      ∃ kind, kind.joinTarget? = some join.target ∧
        metadata.selectorType query.root (query.route (.join id)) = metadata.endType kind := by
    rcases joined.leads join_eq with ⟨owner, owner_eq, kind, kind_eq, leads⟩
    refine ⟨kind, leads, ?_⟩
    rw [joined.route_join join_eq,
      Metadata.selectorType_append (joined.locate_route owner_eq) (Text.segments_ne_nil _),
      Metadata.selectorType_of_propertyAt?_eq_some kind_eq]
  cases located with
  | @field context segments entity kind type entity_eq kind_eq type_eq =>
      have some : segments ≠ [] := by
        rintro rfl
        cases kind_eq
      rw [Metadata.selectorType_append (joined.locate_route entity_eq) some,
        Metadata.selectorType_of_propertyAt?_eq_some kind_eq,
        Metadata.endType_of_leafType?_eq_some type_eq]
  | @whole id target type entity_eq type_eq =>
      rcases Query.entityOf_join_eq_some_iff.mp entity_eq with ⟨join, join_eq, target_eq⟩
      rcases joinType_eq join_eq with ⟨kind, leads, selectorType_eq⟩
      rw [List.append_nil, selectorType_eq, ← type_eq]
      rw [target_eq] at leads
      cases kind with
      | association _ cardinality =>
          cases leads
          rfl
      | _ => cases leads
  | @element id join type join_eq target_eq =>
      rcases joinType_eq join_eq with ⟨kind, leads, selectorType_eq⟩
      rw [List.append_nil, selectorType_eq]
      rw [target_eq] at leads
      cases kind with
      | elements found =>
          cases leads
          rfl
      | _ => cases leads

/-! ## Typed leaves -/

/-- The leaves that make sense for an attribute of a type. -/
inductive Predicate.Typed (path : AttributePath) (type : AttributeType) : Predicate → Prop
  | compare {op : CompareOp} {value : Value} (given : value ≠ .null) (admits : type.Admits value)
      (ordered : op.requiresOrdering = true → type.isOrderable = true) :
      Typed path type (.compare path op value)
  | like {pattern : String} {negated : Bool} (textual : type = .text)
      (starred : '*' ∈ pattern.toList) : Typed path type (.like path pattern negated)
  | isNull (negated : Bool) : Typed path type (.isNull path negated)
  | isIn {values : List Value} {negated : Bool} (some : values ≠ [])
      (each : ∀ value ∈ values, value = .null ∨ type.Admits value) :
      Typed path type (.isIn path values negated)

namespace Literals

variable {literals : Literals} {operator : ComparisonOperator} {target : Attribute}
  {arguments : List String} {predicate : Predicate}

/-- With the usual reading a condition makes sense for its attribute. -/
theorem Form.typed {dates : DateReading}
    (form : literals.Form operator target arguments predicate)
    (parser_eq : literals.parser = .withDates dates) (fit : target.type.ConstantsFit) :
    predicate.Typed target.path target.type := by
  have admits {argument : String} {value : Value}
      (read : literals.parser argument target.type = .ok value) : target.type.Admits value := by
    rw [parser_eq] at read
    exact Coercion.admits_of_parse fit read
  cases form with
  | isIn meaning some values_eq =>
      have readings := coerceAll_eq_ok_iff.mp values_eq
      refine .isIn ?_ ?_
      · rintro rfl
        cases readings
        exact some rfl
      · intro value member
        rcases List.getElem_of_mem member with ⟨i, inside, rfl⟩
        have inside' : i < arguments.length := readings.length_eq ▸ inside
        exact (readings.get inside' inside).null_or_parsed.imp_right admits
  | isNull meaning equality => exact .isNull _
  | like meaning equality given textual starred =>
      refine .like ?_ starred
      cases type_eq : target.type <;> simp_all [AttributeType.isTextual]
  | compare meaning given plain value_eq ordered =>
      exact .compare (admits value_eq).ne_null (admits value_eq) ordered

end Literals

variable {metadata : Metadata} {query : Query} {dates : DateReading}

/-- A leaf that makes sense for the attribute at the end of its path, of the type that metadata
gives. -/
def Query.LeafTyped (metadata : Metadata) (query : Query) (leaf : Predicate) : Prop :=
  ∃ path type, query.Located metadata path type ∧
    metadata.selectorType query.root (query.route path.root ++ path.segments) = .ok type ∧
    leaf.Typed path type

/-- The leaves of a predicate that mirrors a filter with conditions make sense. -/
theorem Scope.leafTyped_of_mirrors {scope : Scope} (parser_eq : scope.parser = .withDates dates)
    (fit : scope.metadata.ConstantsFit) (joined : query.Joined scope.metadata) {filter : Filter}
    {predicate : Predicate} (mirrors : filter.Mirrors (scope.Conditions query) predicate) :
    ∀ leaf ∈ predicate.leaves, query.LeafTyped scope.metadata leaf := by
  intro leaf member
  obtain ⟨node, -, operator, target, located, condition_eq⟩ :=
    mirrors.exists_of_mem_leaves (fun _ _ conditions => conditions.leaves) member
  have type_eq := located.selectorType_eq joined
  have form := Literals.form_of_condition_eq_ok condition_eq
  exact ⟨target.path, target.type, located, type_eq,
    form.typed parser_eq (fit.selectorType type_eq)⟩

/-- With the usual reading of arguments every leaf of a bare predicate makes sense for the
attribute at the end of its path. -/
theorem PredicateCompiler.leafTyped_of_compile {compiler : PredicateCompiler} {start : Query}
    (joined : start.Joined compiler.metadata)
    (builtIn : compiler.configuration.tools.strategy = none)
    (parser_eq : compiler.configuration.tools.parser = .withDates dates)
    (fit : compiler.metadata.ConstantsFit) {filter : Filter} {predicate : Predicate}
    (compiled : compiler.compile filter start = (.ok predicate, query)) :
    ∀ leaf ∈ predicate.leaves, query.LeafTyped compiler.metadata leaf := by
  have kept := compiler.joined_compile joined
    (Configuration.confined_of_strategy_eq_none builtIn) filter
  rw [compiled] at kept
  rw [compile_apply] at compiled
  split at compiled
  · cases compiled
  · rename_i origin origin_eq
    rw [Configuration.compile, builtIn] at compiled
    exact Scope.leafTyped_of_mirrors parser_eq fit kept
      (Scope.compile_mirrors joined (entityOf_of_origin_eq_ok origin_eq) compiled)

/-- With the usual reading of arguments every leaf of a compiled query makes sense for the
attribute at the end of its path. -/
theorem QueryCompiler.leafTyped_of_compileInto {compiler : QueryCompiler} {start : Query}
    (established : start.Established compiler.metadata)
    (builtIn : compiler.configuration.tools.strategy = none)
    (parser_eq : compiler.configuration.tools.parser = .withDates dates)
    (fit : compiler.metadata.ConstantsFit) {filter : Filter}
    (compiled : compiler.compileInto start filter = .ok query) :
    ∃ predicate, query.filter = some predicate ∧
      ∀ leaf ∈ predicate.leaves, query.LeafTyped compiler.metadata leaf := by
  have joined := established.joined
  obtain ⟨predicate, filter_eq, mirrors⟩ :=
    compiler.mirrors_of_compileInto_eq_ok joined builtIn compiled
  exact ⟨predicate, filter_eq, Scope.leafTyped_of_mirrors parser_eq fit
    (compiler.joined_of_compileInto_eq_ok joined builtIn compiled) mirrors⟩

/-- Tasks in a state, some of them parts of others. -/
def tasks : Schema :=
  [(⟨1⟩, { name := "Task", identifier := some "id",
           properties := [("id", .attribute .integer), ("title", .attribute .text),
             ("state", .attribute (.enum "State" ["open", "closed"])),
             ("parent", .association ⟨1⟩ .single)] })]

theorem tasks_constantsFit : tasks.metadata.ConstantsFit := by
  intro owner name type property
  have declared : (∃ kind, tasks.metadata.property owner name = some kind ∧
      (kind = .attribute type ∨ kind = .elements type)) := by
    rcases property with property | property
    · exact ⟨_, property, .inl rfl⟩
    · exact ⟨_, property, .inr rfl⟩
  rcases declared with ⟨kind, property, kind_eq⟩
  rcases Option.bind_eq_some_iff.mp property with ⟨declaration, entity, field⟩
  obtain ⟨-, rfl⟩ := Prod.mk.inj (List.mem_singleton.mp (Keyed.mem_of_get?_eq_some entity))
  have field := Keyed.mem_of_get?_eq_some field
  simp only [List.mem_cons, Prod.mk.injEq, List.not_mem_nil, or_false] at field
  rcases field with ⟨-, rfl⟩ | ⟨-, rfl⟩ | ⟨-, rfl⟩ | ⟨-, rfl⟩ <;>
    rcases kind_eq with kind_eq | kind_eq <;> cases kind_eq
  · trivial
  · trivial
  · exact (by decide : 2 < UInt32.size)

theorem QueryCompiler.leafTyped_of_compileInto_tasks :
    let compiler : QueryCompiler := .select tasks.metadata ⟨1⟩
    let filter : Filter := .group .and [.comparison ⟨"parent.state", "==", ["closed"]⟩,
      .comparison ⟨"parent", "=in=", ["7", "null"]⟩, .comparison ⟨"title", "!=", ["a*"]⟩]
    ∃ query predicate, compiler.compileInto (.select ⟨1⟩) filter = .ok query ∧
      query.filter = some predicate ∧
      ∀ leaf ∈ predicate.leaves, query.LeafTyped tasks.metadata leaf := by
  intro compiler filter
  have succeeds : (compiler.compileInto (.select ⟨1⟩) filter).isOk = true := by decide +kernel
  have builtIn : compiler.configuration.tools.strategy = none := rfl
  cases compiled : compiler.compileInto (.select ⟨1⟩) filter with
  | error stop =>
      rw [compiled] at succeeds
      cases succeeds
  | ok query =>
      rcases leafTyped_of_compileInto (.select ⟨1⟩) builtIn rfl tasks_constantsFit compiled with
        ⟨predicate, filter_eq, leaves⟩
      exact ⟨query, predicate, rfl, filter_eq, leaves⟩

end FilterQuery
