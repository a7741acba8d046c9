import FilterQuery.Proofs.Compile.Frame
import FilterQuery.Proofs.Selector.Repeated

/-!
# Compiling a filter again

A compile changes a query only by the walks of its selectors, and these find every join that they
have made once.  So a filter that is compiled again into its own query comes to the same predicate,
and the query stays as it is.
-/

namespace FilterQuery

/-! ## Computations that are repeated -/

namespace Compile

variable {α β : Type}

/-- A computation whose success is repeated, without a new join, wherever the joins persist that
it has left. -/
def Repeats (x : Compile α) : Prop :=
  ∀ (query : Query) (a : α) (next : Query), x query = (.ok a, next) →
    query.Persists next ∧ ∀ last, next.Persists last → x last = (.ok a, last)

theorem Repeats.pure (a : α) : Repeats (pure a : Compile α) := by
  rintro query _ next ⟨⟩
  exact ⟨.refl query, fun _ _ => rfl⟩

theorem Repeats.reject (error : CompileError) : Repeats (reject error : Compile α) := by
  rintro query a next ⟨⟩

theorem Repeats.ofExcept (outcome : Except CompileError α) :
    Repeats (Compile.ofExcept outcome) := by
  cases outcome with
  | error error => exact .reject error
  | ok a => exact .pure a

theorem Repeats.bind {x : Compile α} {f : α → Compile β} (first : Repeats x)
    (second : ∀ a, Repeats (f a)) : Repeats (x >>= f) := by
  intro query b next succeeded
  obtain ⟨a, middle, firstEq, secondEq⟩ := exists_of_bind_eq_ok succeeded
  obtain ⟨firstPersists, firstAgain⟩ := first query a middle firstEq
  obtain ⟨secondPersists, secondAgain⟩ := second a middle b next secondEq
  refine ⟨firstPersists.trans secondPersists, ?_⟩
  intro last persists
  rw [bind_apply_of_ok (firstAgain last (secondPersists.trans persists))]
  exact secondAgain last persists

end Compile

open Compile (Repeats)

/-! ## Trees -/

mutual
/-- A tree is repeated if its comparisons are. -/
theorem Filter.compileWith_repeats {leaf : Comparison → Compile Predicate}
    (repeats : ∀ node, Repeats (leaf node)) : (filter : Filter) →
      Repeats (filter.compileWith leaf)
  | .comparison node => by
      rw [compileWith]
      exact repeats node
  | .logical symbol children => by
      rw [compileWith]
      split
      · exact .reject _
      · exact (compileChildren_repeats repeats children).bind fun _ => .pure _
  | .extension kind => by
      rw [compileWith]
      exact .reject _

theorem Filter.compileChildren_repeats {leaf : Comparison → Compile Predicate}
    (repeats : ∀ node, Repeats (leaf node)) : (children : List Filter) →
      Repeats (compileChildren leaf children)
  | [] => by
      rw [compileChildren]
      exact .pure _
  | child :: children => by
      rw [compileChildren]
      exact (compileWith_repeats repeats child).bind fun _ =>
        (compileChildren_repeats repeats children).bind fun _ => .pure _
end

namespace Scope

variable (scope : Scope)

theorem resolve_repeats (selector : String) : Repeats (scope.resolve selector) := by
  intro query leaf next succeeded
  rw [resolve_apply] at succeeded
  split at succeeded
  · cases succeeded
  · cases succeeded
  · rename_i walked
    cases succeeded
    refine ⟨Selector.persists_of_resolve walked, ?_⟩
    intro last persists
    rw [resolve_apply, Selector.resolve_of_persists walked persists]

/-- A selector that is walked again in a compile leads to the same attribute, without a new
join. -/
theorem resolve_again {scope : Scope} {selector : String} {query next : Query}
    {target : Attribute}
    (resolved : scope.resolve selector query = (.ok target, next)) :
    scope.resolve selector next = (.ok target, next) :=
  (scope.resolve_repeats selector query target next resolved).2 next (.refl next)

theorem compileBuiltin_repeats (node : Comparison) : Repeats (scope.compileBuiltin node) := by
  unfold compileBuiltin
  split
  · exact .reject _
  · exact (scope.resolve_repeats node.selector).bind fun _ => .ofExcept _

/-- Without a strategy the compile of a filter is repeated. -/
theorem compile_repeats (filter : Filter) : Repeats (scope.compile none filter) := by
  rw [compile_none]
  exact filter.compileWith_repeats scope.compileBuiltin_repeats

end Scope

/-! ## Compilers -/

namespace QueryCompiler

variable {compiler : QueryCompiler} {query result : Query} {filter : Filter}

/-- Without a strategy, compiling a filter again into the query that it has been compiled into
succeeds and leaves the query as it is. -/
theorem compileInto_again (table : query.JoinTable)
    (builtIn : compiler.configuration.tools.strategy = none)
    (h : compiler.compileInto query filter = .ok result) :
    compiler.compileInto result filter = .ok result := by
  obtain ⟨root_eq, projection_eq, -, -⟩ := frame_of_compileInto_eq_ok builtIn table.numbered h
  obtain ⟨predicate, next, compiled, result_eq⟩ := exists_of_compileInto_eq_ok h
  have repeats : Repeats (compiler.configuration.compile compiler.metadata (.root query.root)
      compiler.steps filter) := by
    rw [Configuration.compile, builtIn]
    exact Scope.compile_repeats _ filter
  have persists : next.Persists result := by
    rw [result_eq]
    exact ⟨id, fun _ => rfl⟩
  have again := (repeats _ predicate next compiled).2 result persists
  have asking_eq : ({ result with projection := compiler.projection } : Query) = result := by
    rw [← projection_eq]
  have answered_eq : ({ result with
      filter := some predicate
      distinct := result.distinct || compiler.configuration.options.distinct } : Query) =
        result := by
    simp [result_eq]
  rw [compileInto]
  dsimp only
  rw [asking_eq, root_eq, again]
  exact congrArg Except.ok answered_eq

/-- The members have been joined ahead under an alias, and the filter adds two joins below them. -/
theorem compileInto_again_departments :
    let compiler : QueryCompiler := .select company.metadata ⟨1⟩
    let filter : Filter := .group .or [.comparison ⟨"m.skills", "==", ["lean"]⟩,
      .group .and [.comparison ⟨"members.chief.chief.id", "=gt=", ["0"]⟩]]
    ∃ result, compiler.compileInto departments filter = .ok result ∧
      result.joins.map (fun join => (join.path, join.kind, join.label)) =
        [("members", .left, some "m"), ("skills", .inner, none), ("chief", .inner, none),
          ("chief", .inner, none)] ∧
      compiler.compileInto result filter = .ok result := by
  intro compiler filter
  have joins_eq : (compiler.compileInto departments filter).toOption.map (fun result =>
      result.joins.map fun join => (join.path, join.kind, join.label)) =
        some [("members", .left, some "m"), ("skills", .inner, none), ("chief", .inner, none),
          ("chief", .inner, none)] := by decide +kernel
  cases compiled : compiler.compileInto departments filter with
  | error stop =>
      rw [compiled] at joins_eq
      cases joins_eq
  | ok result =>
      rw [compiled] at joins_eq
      exact ⟨result, rfl, Option.some.inj joins_eq,
        compileInto_again departments_joined.joinTable rfl compiled⟩

end QueryCompiler

end FilterQuery
