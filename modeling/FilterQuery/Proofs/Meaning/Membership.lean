import FilterQuery.Proofs.Compile.Arguments
import FilterQuery.Proofs.Compile.Conditions
import FilterQuery.Proofs.Compile.Landing
import FilterQuery.Proofs.Compile.Repeated

/-!
# Membership as repeated equality

Membership in a list of arguments is equality with one of them, and the absence from the list is
inequality with each.  A query for the list and one for the group of the equalities are compiled
with the same joins, or refused for the same reason, and give the same answer on every store, be it
rows or an error.

The null token is read as null, which equals nothing and differs from nothing.  So it adds nothing
to a membership, and with it no value is surely absent from the list.
-/

namespace FilterQuery

/-! ## Filters -/

/-- The operator for membership in a list, or for the absence from it. -/
def ComparisonOperator.membership : Bool → ComparisonOperator
  | false => .isIn
  | true => .notIn

/-- The operator for equality, or for inequality. -/
def ComparisonOperator.equality : Bool → ComparisonOperator
  | false => .equal
  | true => .notEqual

/-- Equality, or inequality. -/
def CompareOp.equality : Bool → CompareOp
  | false => .eq
  | true => .ne

/-- How equalities that stand for a list are joined: one of them is enough, but no inequality may
fail. -/
def LogicalOperator.joining : Bool → LogicalOperator
  | false => .or
  | true => .and

theorem ComparisonOperator.meaning_membership (negated : Bool) :
    (membership negated).meaning = .membership negated := by
  cases negated <;> rfl

theorem ComparisonOperator.meaning_equality (negated : Bool) :
    (equality negated).meaning = .comparison (.equality negated) := by
  cases negated <;> rfl

namespace Filter

/-- Membership in a list of arguments, or the absence from it. -/
def membership (negated : Bool) (selector : String) (arguments : List String) : Filter :=
  .comparison ⟨selector, (ComparisonOperator.membership negated).symbol, arguments⟩

/-- Equality with an argument, or inequality. -/
def equality (negated : Bool) (selector argument : String) : Filter :=
  .comparison ⟨selector, (ComparisonOperator.equality negated).symbol, [argument]⟩

end Filter

/-! ## Values -/

namespace Value

variable {actual : Value} {values : List Value}

/-- Null equals nothing. -/
theorem not_agrees_null (actual : Value) : actual.agrees .null = false := by
  cases actual <;> rfl

/-- A value is surely absent from a list if it differs from each of its values. -/
theorem among_eq_all (some : values ≠ []) :
    actual.among values true = values.all (CompareOp.ne.holds actual) := by
  obtain ⟨value, others, rfl⟩ := List.exists_cons_of_ne_nil some
  rw [Bool.eq_iff_iff]
  simp only [among, CompareOp.holds, if_true, Bool.and_eq_true, Bool.not_eq_true',
    List.any_eq_false, List.all_eq_true, Bool.not_eq_true]
  constructor
  · rintro ⟨⟨given, apart⟩, known⟩ value member
    exact ⟨⟨given, known value member⟩, apart value member⟩
  · intro differs
    exact ⟨⟨(differs value List.mem_cons_self).1.1, fun value member => (differs value member).2⟩,
      fun value member => (differs value member).1.2⟩

/-- With null in the list no value is surely absent from it. -/
theorem not_among_of_null_mem (member : .null ∈ values) (actual : Value) :
    actual.among values true = false := by
  have unknown : values.any isNull = true := List.any_eq_true.mpr ⟨.null, member, rfl⟩
  simp [among, unknown]

end Value

/-! ## Arguments -/

namespace Literals

variable {literals : Literals} {type : AttributeType} {arguments : List String}

theorem exists_coerceAll_iff :
    (∃ values, literals.coerceAll arguments type = .ok values) ↔
      ∀ argument ∈ arguments, ∃ value, literals.coerce argument type = .ok value := by
  induction arguments with
  | nil => exact ⟨fun _ => nofun, fun _ => ⟨[], rfl⟩⟩
  | cons argument arguments ih =>
      rw [coerceAll_cons, List.forall_mem_cons, ← ih]
      cases literals.coerce argument type with
      | error error => simp [bind, Except.bind]
      | ok value => cases literals.coerceAll arguments type <;> simp [bind, Except.bind, Except.map]

/-- An equality with an argument that is neither the null token nor a pattern asks for its value. -/
theorem condition_equality {target : Attribute} {argument : String} (negated : Bool)
    (symbol : String) (given : argument ≠ literals.nullToken) (plain : '*' ∉ argument.toList) :
    literals.condition (.equality negated) symbol target [argument] =
      (literals.coerce argument target.type).map (.compare target.path (.equality negated)) := by
  have unordered : (CompareOp.equality negated).requiresOrdering = false := by
    cases negated <;> rfl
  rw [condition_eq_valueTest (ComparisonOperator.meaning_equality negated) given fun _ => plain,
    valueTest, unordered]
  cases literals.coerce argument target.type <;> rfl

/-- The arguments that are not the null token. -/
def given (literals : Literals) (arguments : List String) : List String :=
  arguments.filter (· ≠ literals.nullToken)

theorem given_cons (argument : String) (arguments : List String) :
    literals.given (argument :: arguments) =
      if argument = literals.nullToken then literals.given arguments
      else argument :: literals.given arguments := by
  simp [given, List.filter_cons]

/-- Null tokens do not bear on which values are found in a list, or on whether it can be read. -/
theorem coerceAll_given (type : AttributeType) (arguments : List String) :
    (literals.coerceAll (literals.given arguments) type).map
        (fun values actual => Value.among actual values false) =
      (literals.coerceAll arguments type).map
        fun values actual => Value.among actual values false := by
  induction arguments with
  | nil => rfl
  | cons argument arguments ih =>
      rw [given_cons]
      split
      · rename_i token
        rw [ih, coerceAll_cons, coerce, if_pos token]
        cases literals.coerceAll arguments type with
        | error error => rfl
        | ok values => simp [Except.map, bind, Except.bind, Value.among, Value.not_agrees_null]
      · rw [coerceAll_cons, coerceAll_cons]
        cases literals.coerce argument type with
        | error error => rfl
        | ok value =>
            revert ih
            cases literals.coerceAll arguments type <;>
              cases literals.coerceAll (literals.given arguments) type <;>
                simp [Except.map, bind, Except.bind, Value.among, funext_iff]
            intro found actual
            rw [found]

/-- The null token puts null into the list. -/
theorem null_mem_of_coerceAll {values : List Value}
    (read : literals.coerceAll arguments type = .ok values)
    (token : literals.nullToken ∈ arguments) : .null ∈ values := by
  have reads := coerceAll_eq_ok_iff.mp read
  obtain ⟨i, inside, token_eq⟩ := List.getElem_of_mem token
  have inside' : i < values.length := reads.length_eq ▸ inside
  have first := reads.get inside inside'
  rw [List.get_eq_getElem, token_eq] at first
  exact first.eq_null ▸ List.getElem_mem inside'

end Literals

/-! ## Compiles -/

namespace Compile

/-- Compiles that stop alike, or that come with the same joins to predicates that hold of the same
tuples. -/
inductive Equivalent : Except Stop Predicate × Query → Except Stop Predicate × Query → Prop
  | stop (stop : Stop) (next other : Query) : Equivalent (.error stop, next) (.error stop, other)
  | holds {first second : Predicate} (next : Query)
      (same : ∀ (store : Store) tuple, store.holds tuple first = store.holds tuple second) :
      Equivalent (.ok first, next) (.ok second, next)

theorem exists_ofExcept_map_iff {α β : Type} {outcome : Except CompileError α} {f : α → β}
    {next : Query} :
    (∃ b, (ofExcept (outcome.map f) next).1 = .ok b) ↔ ∃ a, outcome = .ok a := by
  cases outcome with
  | error error => exact ⟨nofun, nofun⟩
  | ok a => exact ⟨fun _ => ⟨a, rfl⟩, fun _ => ⟨f a, rfl⟩⟩

end Compile

namespace Store

variable {store : Store} {tuple : Tuple}

/-- Conditions that are decided for each value hold together if all of them hold. -/
theorem holdAll_map {leaf : Value → Predicate} {test : Value → Bool}
    (decided : ∀ value, store.holds tuple (leaf value) = .ok (test value)) (values : List Value) :
    store.holdAll tuple (values.map leaf) = .ok (values.all test) := by
  induction values with
  | nil => rfl
  | cons value values ih =>
      rw [List.map_cons, holdAll, decided, List.all_cons]
      cases test value with
      | true => exact ih
      | false => rfl

/-- One of them holds if one does. -/
theorem holdAny_map {leaf : Value → Predicate} {test : Value → Bool}
    (decided : ∀ value, store.holds tuple (leaf value) = .ok (test value)) (values : List Value) :
    store.holdAny tuple (values.map leaf) = .ok (values.any test) := by
  induction values with
  | nil => rfl
  | cons value values ih =>
      rw [List.map_cons, holdAny, decided, List.any_cons]
      cases test value with
      | true => rfl
      | false => exact ih

/-- Membership in a list holds as the group of the equalities with its values, also where the value
to be looked for cannot be read. -/
theorem holds_isIn (store : Store) (tuple : Tuple) (path : AttributePath) (negated : Bool)
    {values : List Value} (some : values ≠ []) :
    store.holds tuple (.isIn path values negated) =
      store.holds tuple
        (.group (.joining negated) (values.map (.compare path (.equality negated)))) := by
  have leaf (op : CompareOp) (value : Value) : store.holds tuple (.compare path op value) =
      (store.read path tuple).map (op.holds · value) := holds_of_test? rfl
  rw [holds_of_test? rfl]
  cases read_eq : store.read path tuple with
  | error error =>
      -- The first equality cannot be decided, so neither can the group.
      obtain ⟨value, others, rfl⟩ := List.exists_cons_of_ne_nil some
      have failed (op : CompareOp) : store.holds tuple (.compare path op value) = .error error := by
        rw [leaf, read_eq]
        rfl
      cases negated with
      | false =>
          show _ = store.holdAny tuple (.compare path .eq value :: _)
          rw [holdAny, failed]
          rfl
      | true =>
          show _ = store.holdAll tuple (.compare path .ne value :: _)
          rw [holdAll, failed]
          rfl
  | ok actual =>
      have decided (op : CompareOp) (value : Value) :
          store.holds tuple (.compare path op value) = .ok (op.holds actual value) := by
        rw [leaf, read_eq]
        rfl
      cases negated with
      | false => exact (holdAny_map (decided .eq) values).symm
      | true =>
          show Except.ok (actual.among values true) = _
          rw [Value.among_eq_all some]
          exact (holdAll_map (decided .ne) values).symm

/-- Queries that differ in their filters give the same answer if these hold of the same tuples. -/
theorem matchingRoots_congr {first second : Option Predicate}
    (same : ∀ tuple, store.passes first tuple = store.passes second tuple) (tuples : List Tuple) :
    store.matchingRoots first tuples = store.matchingRoots second tuples := by
  induction tuples with
  | nil => rfl
  | cons tuple tuples ih => rw [matchingRoots, matchingRoots, same, ih]

/-- Nothing is selected by a filter that nothing passes. -/
theorem select_eq_nil {query : Query} {rows : List RowRef}
    (fails : ∀ tuple decided, store.passes query.filter tuple = .ok decided → decided = false)
    (selected : store.select query = .ok rows) : rows = [] := by
  obtain ⟨tuples, passed, -, passes, rows_eq⟩ := select_eq_ok_iff.mp selected
  have none : tuples.filter passed = [] := by
    rw [List.filter_eq_nil_iff]
    intro tuple member
    rw [fails tuple _ (passes tuple member)]
    exact Bool.false_ne_true
  rw [← rows_eq, none]
  split <;> rfl

end Store

namespace Scope

variable {scope : Scope} {selector symbol : String} {query next : Query} {target : Attribute}
  {arguments : List String} {negated : Bool}

/-- A comparison whose selector cannot be followed stops there. -/
theorem compileBuiltin_of_stop {operator : ComparisonOperator} {stop : Stop}
    (parsed : ComparisonOperator.parse? symbol = some operator)
    (stopped : scope.resolve selector query = (.error stop, next)) (arguments : List String) :
    scope.compileBuiltin ⟨selector, symbol, arguments⟩ query = (.error stop, next) := by
  rw [compileBuiltin, parsed]
  exact Compile.bind_apply_of_error stopped

/-- Membership in a list is compiled to the values of its arguments. -/
theorem compile_membership_of_resolve (some : arguments ≠ [])
    (resolved : scope.resolve selector query = (.ok target, next)) :
    scope.compile none (.membership negated selector arguments) query =
      Compile.ofExcept ((scope.literals.coerceAll arguments target.type).map
        (.isIn target.path · negated)) next := by
  rw [compile_none, Filter.membership, Filter.compileWith,
    compileBuiltin_of_resolve (ComparisonOperator.parse?_symbol _) resolved,
    Literals.condition_membership (ComparisonOperator.meaning_membership negated) some]

/-- Equality with an argument is compiled to its value. -/
theorem compile_equality_of_resolve (negated : Bool) {argument : String}
    (given : argument ≠ scope.options.nullToken) (plain : '*' ∉ argument.toList)
    (resolved : scope.resolve selector query = (.ok target, next)) :
    scope.compile none (.equality negated selector argument) query =
      Compile.ofExcept ((scope.literals.coerce argument target.type).map
        (.compare target.path (.equality negated))) next := by
  rw [compile_none, Filter.equality, Filter.compileWith,
    compileBuiltin_of_resolve (ComparisonOperator.parse?_symbol _) resolved,
    Literals.condition_equality negated _ given plain]

/-- So a compile of a comparison stops where its selector does. -/
theorem compile_of_stop {operator : ComparisonOperator} {stop : Stop}
    (parsed : ComparisonOperator.parse? symbol = some operator)
    (stopped : scope.resolve selector query = (.error stop, next)) (arguments : List String) :
    scope.compile none (.comparison ⟨selector, symbol, arguments⟩) query = (.error stop, next) := by
  rw [compile_none, Filter.compileWith, compileBuiltin_of_stop parsed stopped]

/-- A list is accepted if each of its arguments is. -/
theorem exists_compile_membership_iff (some : arguments ≠ [])
    (given : scope.options.nullToken ∉ arguments)
    (plain : ∀ argument ∈ arguments, '*' ∉ argument.toList) :
    (∃ predicate, (scope.compile none (.membership negated selector arguments) query).1 =
        .ok predicate) ↔
      ∀ argument ∈ arguments, ∃ predicate,
        (scope.compile none (.equality negated selector argument) query).1 = .ok predicate := by
  rcases resolved : scope.resolve selector query with ⟨stop | target, next⟩
  · obtain ⟨argument, others, rfl⟩ := List.exists_cons_of_ne_nil some
    rw [List.forall_mem_cons, Filter.membership, Filter.equality,
      compile_of_stop (ComparisonOperator.parse?_symbol _) resolved,
      compile_of_stop (ComparisonOperator.parse?_symbol _) resolved]
    exact ⟨nofun, nofun⟩
  · rw [compile_membership_of_resolve some resolved, Compile.exists_ofExcept_map_iff,
      Literals.exists_coerceAll_iff]
    refine forall₂_congr fun argument member => ?_
    rw [compile_equality_of_resolve negated (ne_of_mem_of_not_mem member given)
      (plain argument member) resolved, Compile.exists_ofExcept_map_iff]

/-- Equalities of one selector with some arguments are compiled to the equalities with the values of
the arguments, or refused as the list of the arguments is. -/
theorem compileChildren_equalities (negated : Bool) (some : arguments ≠ [])
    (given : scope.options.nullToken ∉ arguments)
    (plain : ∀ argument ∈ arguments, '*' ∉ argument.toList)
    (resolved : scope.resolve selector query = (.ok target, next)) :
    Filter.compileChildren scope.compileBuiltin
        (arguments.map (Filter.equality negated selector)) query =
      Compile.ofExcept ((scope.literals.coerceAll arguments target.type).map
        (·.map (.compare target.path (.equality negated)))) next := by
  induction arguments generalizing query with
  | nil => exact absurd rfl some
  | cons argument others ih =>
      rcases List.forall_mem_cons.mp plain with ⟨plain, plainOthers⟩
      rw [List.mem_cons, not_or] at given
      have first := compile_equality_of_resolve negated (Ne.symm given.1) plain
        resolved
      rw [compile_none] at first
      have rest : Filter.compileChildren scope.compileBuiltin
          (others.map (Filter.equality negated selector)) next =
            Compile.ofExcept ((scope.literals.coerceAll others target.type).map
              (·.map (.compare target.path (.equality negated)))) next := by
        cases others with
        | nil => rfl
        | cons => exact ih (List.cons_ne_nil _ _) given.2 plainOthers (resolve_again resolved)
      rw [List.map_cons, Filter.compileChildren, Literals.coerceAll_cons]
      cases coerced : scope.literals.coerce argument target.type with
      | error error =>
          rw [coerced] at first
          rw [Compile.bind_apply_of_error first]
          rfl
      | ok value =>
          rw [coerced] at first
          rw [Compile.bind_apply_of_ok first]
          cases coercedOthers : scope.literals.coerceAll others target.type with
          | error error =>
              rw [coercedOthers] at rest
              rw [Compile.bind_apply_of_error rest]
              rfl
          | ok values =>
              rw [coercedOthers] at rest
              rw [Compile.bind_apply_of_ok rest]
              rfl

/-- Membership in a list and the group of the equalities with its arguments are compiled alike. -/
theorem membership_equivalent_equalities (some : arguments ≠ [])
    (given : scope.options.nullToken ∉ arguments)
    (plain : ∀ argument ∈ arguments, '*' ∉ argument.toList)
    (joining : LogicalOperator.parse? symbol = .some (.joining negated)) :
    let equalities := arguments.map (Filter.equality negated selector)
    Compile.Equivalent (scope.compile none (.membership negated selector arguments) query)
      (scope.compile none (.logical symbol equalities) query) := by
  intro equalities
  have group_eq : scope.compile none (.logical symbol equalities) =
      Filter.compileChildren scope.compileBuiltin equalities >>=
        fun predicates => pure (.group (.joining negated) predicates) := by
    rw [compile_none, Filter.compileWith, joining]
  rw [group_eq]
  rcases resolved : scope.resolve selector query with ⟨stop | target, next⟩
  · rw [Filter.membership, compile_of_stop (ComparisonOperator.parse?_symbol _) resolved,
      Compile.bind_apply_of_error]
    · exact .stop stop next next
    · obtain ⟨argument, others, rfl⟩ := List.exists_cons_of_ne_nil some
      simp only [equalities, List.map_cons, Filter.compileChildren, Filter.equality,
        Filter.compileWith]
      apply Compile.bind_apply_of_error
      exact compileBuiltin_of_stop (ComparisonOperator.parse?_symbol _) resolved _
  · have children := compileChildren_equalities negated some given plain resolved
    rw [compile_membership_of_resolve some resolved]
    cases read : scope.literals.coerceAll arguments target.type with
    | error error =>
        rw [read] at children
        rw [Compile.bind_apply_of_error children]
        exact .stop _ next next
    | ok values =>
        rw [read] at children
        rw [Compile.bind_apply_of_ok children]
        refine .holds next fun store tuple => store.holds_isIn tuple target.path negated ?_
        rintro rfl
        exact some (List.length_eq_zero_iff.mp (Literals.coerceAll_eq_ok_iff.mp read).length_eq)

/-- Membership in a list is compiled as without its null tokens. -/
theorem membership_equivalent_given (someGiven : scope.literals.given arguments ≠ []) :
    Compile.Equivalent (scope.compile none (.membership false selector arguments) query)
      (scope.compile none (.membership false selector (scope.literals.given arguments)) query) := by
  have some : arguments ≠ [] := by
    rintro rfl
    exact someGiven rfl
  rcases resolved : scope.resolve selector query with ⟨stop | target, next⟩
  · rw [Filter.membership, Filter.membership,
      compile_of_stop (ComparisonOperator.parse?_symbol _) resolved,
      compile_of_stop (ComparisonOperator.parse?_symbol _) resolved]
    exact .stop stop next next
  · have found := scope.literals.coerceAll_given target.type arguments
    rw [compile_membership_of_resolve some resolved,
      compile_membership_of_resolve someGiven resolved]
    cases read : scope.literals.coerceAll arguments target.type <;>
      cases readGiven : scope.literals.coerceAll (scope.literals.given arguments) target.type <;>
        rw [read, readGiven] at found
    case error.error error other =>
      cases found
      exact .stop _ next next
    case ok.ok values others =>
      refine .holds next fun store tuple => ?_
      rw [Store.holds_of_test? rfl, Store.holds_of_test? rfl]
      exact congrArg (store.read target.path tuple).map (Except.ok.inj found).symm
    all_goals cases found

end Scope

/-! ## Compilers -/

namespace QueryCompiler

variable {compiler : QueryCompiler} {query : Query} {selector : String} {arguments : List String}

/-- Compiles into queries that stop alike, or give the same answer on every store, be it rows or an
error. -/
inductive Agree : Except Stop Query → Except Stop Query → Prop
  | stop (stop : Stop) : Agree (.error stop) (.error stop)
  | select {first second : Query}
      (same : ∀ store : Store, store.select first = store.select second) :
      Agree (.ok first) (.ok second)

/-- The scope of a compile into a query. -/
def scopeIn (compiler : QueryCompiler) (query : Query) : Scope :=
  compiler.configuration.scope compiler.metadata (.root query.root) compiler.steps

/-- What a compile without a strategy starts from, and comes to. -/
def run (compiler : QueryCompiler) (query : Query) (filter : Filter) :
    Except Stop Predicate × Query :=
  (compiler.scopeIn query).compile none filter { query with projection := compiler.projection }

/-- The query that a compile ends in, with its predicate. -/
def finish (compiler : QueryCompiler) : Except Stop Predicate × Query → Except Stop Query
  | (.error stop, _) => .error stop
  | (.ok predicate, next) =>
      .ok { next with
        filter := some predicate
        distinct := next.distinct || compiler.configuration.options.distinct }

theorem compileInto_eq_finish (builtIn : compiler.configuration.tools.strategy = none)
    (query : Query) (filter : Filter) :
    compiler.compileInto query filter = compiler.finish (compiler.run query filter) := by
  rw [compileInto]
  dsimp only [Configuration.compile]
  rw [builtIn, run, scopeIn]
  rcases Scope.compile _ none filter _ with ⟨stop | predicate, next⟩ <;> rfl

/-- Equivalent compiles lead to queries with the same answers. -/
theorem agree_of_equivalent {first second : Except Stop Predicate × Query}
    (equivalent : Compile.Equivalent first second) :
    Agree (compiler.finish first) (compiler.finish second) := by
  cases equivalent with
  | stop stop => exact .stop stop
  | @holds first second next same =>
      refine .select fun store => ?_
      have passes (tuple : Tuple) :
          store.passes (some first) tuple = store.passes (some second) tuple := same store tuple
      simp only [Store.select, Store.matchingRoots_congr passes]
      rfl

theorem exists_finish_iff {outcome : Except Stop Predicate × Query} :
    (∃ result, compiler.finish outcome = .ok result) ↔ ∃ predicate, outcome.1 = .ok predicate := by
  rcases outcome with ⟨stop | predicate, next⟩ <;> simp [finish]

/-- What a query for a membership asks. -/
theorem exists_of_compileInto_membership {negated : Bool} {result : Query}
    (builtIn : compiler.configuration.tools.strategy = none) (some : arguments ≠ [])
    (compiled : compiler.compileInto query (.membership negated selector arguments) = .ok result) :
    ∃ (target : Attribute) (values : List Value),
      (compiler.scopeIn query).literals.coerceAll arguments target.type = .ok values ∧
      result.filter = .some (.isIn target.path values negated) := by
  rw [compileInto_eq_finish builtIn, run] at compiled
  rcases resolved : (compiler.scopeIn query).resolve selector
    { query with projection := compiler.projection } with ⟨stop | target, next⟩
  · rw [Filter.membership,
      Scope.compile_of_stop (ComparisonOperator.parse?_symbol _) resolved] at compiled
    cases compiled
  · rw [Scope.compile_membership_of_resolve some resolved] at compiled
    cases read : (compiler.scopeIn query).literals.coerceAll arguments target.type with
    | error error =>
        rw [read] at compiled
        cases compiled
    | ok values =>
        rw [read] at compiled
        cases compiled
        exact ⟨target, values, read, rfl⟩

/-- Nothing is selected by a membership of which every value is sure to fail. -/
theorem select_membership_eq_nil {negated : Bool} {result : Query} {store : Store}
    {rows : List RowRef} (builtIn : compiler.configuration.tools.strategy = none)
    (some : arguments ≠ [])
    (fails : ∀ type values,
      (compiler.scopeIn query).literals.coerceAll arguments type = .ok values →
        ∀ actual : Value, actual.among values negated = false)
    (compiled : compiler.compileInto query (.membership negated selector arguments) = .ok result)
    (selected : store.select result = .ok rows) : rows = [] := by
  obtain ⟨target, values, read, filter_eq⟩ := exists_of_compileInto_membership builtIn some compiled
  refine Store.select_eq_nil (fun tuple decided passed => ?_) selected
  rw [filter_eq] at passed
  change store.holds tuple (.isIn target.path values negated) = _ at passed
  rw [Store.holds_of_test? rfl] at passed
  cases found : store.read target.path tuple with
  | error error =>
      rw [found] at passed
      cases passed
  | ok actual =>
      rw [found] at passed
      rw [← Except.ok.inj passed]
      exact fails target.type values read actual

/-- Without a strategy, membership in a list of plain arguments is repeated equality: the list is
compiled if every equality with one of its arguments is, and then it has the answers of their group,
as the absence from the list has those of the group of the inequalities.  With a null token in the
list no row is sure to be absent from it, and the membership is the one without the null tokens,
which nothing has if there are no other arguments. -/
theorem membership_agrees (compiler : QueryCompiler)
    (builtIn : compiler.configuration.tools.strategy = none)
    (query : Query) (selector : String) {arguments : List String} (some : arguments ≠ []) :
    let compile := compiler.compileInto query
    let nullToken := compiler.configuration.options.nullToken
    let given := arguments.filter (· ≠ nullToken)
    (nullToken ∉ arguments → (∀ argument ∈ arguments, '*' ∉ argument.toList) →
      ∀ negated symbol, LogicalOperator.parse? symbol = .some (.joining negated) →
        ((∃ result, compile (.membership negated selector arguments) = .ok result) ↔
          ∀ argument ∈ arguments,
            ∃ result, compile (.equality negated selector argument) = .ok result) ∧
        Agree (compile (.membership negated selector arguments))
          (compile (.logical symbol (arguments.map (.equality negated selector))))) ∧
    (nullToken ∈ arguments → ∀ result (store : Store) rows,
      compile (.membership true selector arguments) = .ok result →
        store.select result = .ok rows → rows = []) ∧
    (given ≠ [] → Agree (compile (.membership false selector arguments))
      (compile (.membership false selector given))) ∧
    (given = [] → ∀ result (store : Store) rows,
      compile (.membership false selector arguments) = .ok result →
        store.select result = .ok rows → rows = []) := by
  dsimp only
  refine ⟨?plain, ?absent, ?present, ?missing⟩
  case plain =>
    intro given plain negated symbol joining
    simp only [compileInto_eq_finish builtIn, exists_finish_iff]
    exact ⟨Scope.exists_compile_membership_iff some given plain,
      agree_of_equivalent (Scope.membership_equivalent_equalities some given plain joining)⟩
  case absent =>
    intro token result store rows
    refine select_membership_eq_nil builtIn some fun type values read => ?_
    exact Value.not_among_of_null_mem (Literals.null_mem_of_coerceAll read token)
  case present =>
    intro someGiven
    rw [compileInto_eq_finish builtIn, compileInto_eq_finish builtIn]
    exact agree_of_equivalent (Scope.membership_equivalent_given someGiven)
  case missing =>
    intro none result store rows
    refine select_membership_eq_nil builtIn some fun type values read actual => ?_
    have found := (compiler.scopeIn query).literals.coerceAll_given type arguments
    rw [show (compiler.scopeIn query).literals.given arguments = [] from none, read] at found
    exact (congrFun (Except.ok.inj found) actual).symm

/-- Departments by the numbers of their members: a list with an argument twice, lists with a null
token, and a list of nothing else. -/
theorem membership_agrees_members :
    let compiler : QueryCompiler := .select company.metadata ⟨1⟩
    let compile := compiler.compileInto (.select ⟨1⟩)
    let listed : List String := ["2", "7", "2"]
    listed ≠ [] ∧
    (∀ negated, (∃ result, compile (.membership negated "members.id" listed) = .ok result) ∧
      (∀ argument ∈ listed, ∃ result, compile (.equality negated "members.id" argument) =
        .ok result) ∧
      Agree (compile (.membership negated "members.id" listed))
        (compile (.logical (LogicalOperator.joining negated).symbol
          (listed.map (.equality negated "members.id"))))) ∧
    (∃ result rows, compile (.membership true "members.id" ["7", "null"]) = .ok result ∧
      companyStore.select result = .ok rows ∧ rows = []) ∧
    Agree (compile (.membership false "members.id" ["null", "2"]))
      (compile (.membership false "members.id" ["2"])) ∧
    ∃ result rows, compile (.membership false "members.id" ["null"]) = .ok result ∧
      companyStore.select result = .ok rows ∧ rows = [] := by
  intro compiler compile listed
  have answered (filter : Filter) (found : (compile filter).toOption.any
      (fun query => (companyStore.select query).isOk) = true) :
      ∃ result rows, compile filter = .ok result ∧ companyStore.select result = .ok rows := by
    cases compiled : compile filter with
    | error stop =>
        rw [compiled] at found
        cases found
    | ok result =>
        rw [compiled] at found
        change (companyStore.select result).isOk = true at found
        cases selected : companyStore.select result with
        | error error =>
            rw [selected] at found
            cases found
        | ok rows => exact ⟨result, rows, rfl, selected⟩
  have repeated := (membership_agrees compiler rfl (.select ⟨1⟩) "members.id"
    (List.cons_ne_nil _ _ : listed ≠ [])).1 (by decide) (by decide)
  obtain ⟨-, absent, -, -⟩ := membership_agrees compiler rfl (.select ⟨1⟩)
    "members.id" (List.cons_ne_nil _ _ : ["7", "null"] ≠ [])
  obtain ⟨-, -, present, -⟩ := membership_agrees compiler rfl (.select ⟨1⟩)
    "members.id" (List.cons_ne_nil _ _ : ["null", "2"] ≠ [])
  obtain ⟨-, -, -, missing⟩ := membership_agrees compiler rfl (.select ⟨1⟩)
    "members.id" (List.cons_ne_nil _ _ : ["null"] ≠ [])
  refine ⟨List.cons_ne_nil _ _, fun negated => ?_, ?_, present (by decide), ?_⟩
  · obtain ⟨accepted, agree⟩ := repeated negated _ (LogicalOperator.parse?_symbol _)
    have found : ∃ result, compile (.membership negated "members.id" listed) = .ok result := by
      cases negated with
      | false => exact (answered _ (by decide +kernel)).imp fun _ ⟨_, compiled, _⟩ => compiled
      | true => exact (answered _ (by decide +kernel)).imp fun _ ⟨_, compiled, _⟩ => compiled
    exact ⟨found, accepted.mp found, agree⟩
  · obtain ⟨result, rows, compiled, selected⟩ :=
      answered (.membership true "members.id" ["7", "null"]) (by decide +kernel)
    exact ⟨result, rows, compiled, selected, absent (by decide) result _ rows compiled selected⟩
  · obtain ⟨result, rows, compiled, selected⟩ :=
      answered (.membership false "members.id" ["null"]) (by decide +kernel)
    exact ⟨result, rows, compiled, selected, missing rfl result _ rows compiled selected⟩

end QueryCompiler

end FilterQuery
