import FilterQuery.Proofs.Compile.Comparisons
import FilterQuery.Proofs.Store.Conformity

/-!
# One compile behind all entry points

A compile without a strategy looks at the root and the joins of a query.  What the query asks
for (its projection, whether it gives rows once, the filter that it has so far) is carried
along.  So compilers of rows, of counts and of predicates come to the same joins and the same
predicate, or fail alike, and a count is the number of the rows that are selected.
-/

namespace FilterQuery

/-! ## What a compile carries along -/

/-- A query that asks of its joins what another query asks for. -/
def Query.askingFor (query asked : Query) : Query :=
  { query with projection := asked.projection, distinct := asked.distinct, filter := asked.filter }

/-- Making a join carries along what is asked for. -/
theorem Query.ensureJoin_askingFor (query asked : Query) (parent : Context) (path : String)
    (target : JoinTarget) :
    (query.askingFor asked).ensureJoin parent path target =
      ((query.ensureJoin parent path target).1,
        (query.ensureJoin parent path target).2.askingFor asked) := by
  unfold ensureJoin askingFor
  dsimp only
  cases query.index.get? (parent, path) <;> rfl

namespace Selector

variable {metadata : Metadata} {mapper : Mapper} {selector : String}

/-- The same walk on a query that asks for something else. -/
def Walk.askingFor (walk : Walk) (asked : Query) : Walk :=
  { walk with query := walk.query.askingFor asked }

def Progress.askingFor (asked : Query) : Progress → Progress
  | .walking walk => .walking (walk.askingFor asked)
  | .stopped outcome query => .stopped outcome (query.askingFor asked)

theorem step_askingFor (walk : Walk) (asked : Query) :
    step metadata mapper selector (walk.askingFor asked) =
      (step metadata mapper selector walk).askingFor asked := by
  unfold step
  dsimp only [Walk.askingFor]
  cases expand mapper walk.owner walk.pending with
  | nil => rfl
  | cons segment rest =>
      dsimp only
      rcases metadata.property walk.owner segment with
        _ | ⟨type⟩ | ⟨inner⟩ | ⟨target, cardinality⟩ | ⟨type⟩
      · rfl
      · rfl
      · cases rest <;> rfl
      · simp only [stepAssociation, Query.ensureJoin_askingFor]
        cases rest <;> cases cardinality <;> rfl
      · simp only [stepElements, Query.ensureJoin_askingFor]
        cases rest <;> rfl

theorem run_askingFor (steps : Nat) (walk : Walk) (asked : Query) :
    run metadata mapper selector steps (walk.askingFor asked) =
      (run metadata mapper selector steps walk).askingFor asked := by
  induction steps generalizing walk with
  | zero => rfl
  | succ steps ih =>
      rw [run, run, step_askingFor]
      cases step metadata mapper selector walk with
      | walking next => exact ih next
      | stopped outcome query => rfl

theorem start_askingFor (query asked : Query) (origin : Origin) :
    start metadata (query.askingFor asked) origin selector =
      (start metadata query origin selector).askingFor asked := by
  have labeled_eq : (query.askingFor asked).joinLabeled? = query.joinLabeled? := rfl
  unfold start
  dsimp only
  rw [labeled_eq]
  split
  · unfold startAtJoin
    dsimp only
    split <;> rfl
  · rfl

/-- A walk goes the same way whatever its query asks for. -/
theorem resolve_askingFor (steps : Nat) (query asked : Query) (origin : Origin) :
    resolve metadata mapper steps (query.askingFor asked) origin selector =
      (resolve metadata mapper steps query origin selector).askingFor asked := by
  rw [resolve, resolve, start_askingFor]
  cases start metadata query origin selector with
  | walking walk => exact run_askingFor _ walk asked
  | stopped outcome query => rfl

end Selector

namespace Compile

variable {α β : Type}

/-- A computation does not look at what its query asks for, and does not change it. -/
def Carries (x : Compile α) : Prop :=
  ∀ query asked, x (query.askingFor asked) = ((x query).1, (x query).2.askingFor asked)

theorem Carries.pure (a : α) : Carries (pure a) :=
  fun _ _ => rfl

theorem Carries.reject (error : CompileError) : Carries (reject error : Compile α) :=
  fun _ _ => rfl

theorem Carries.ofExcept (outcome : Except CompileError α) : Carries (Compile.ofExcept outcome) := by
  cases outcome with
  | error error => exact .reject error
  | ok a => exact .pure a

theorem Carries.bind {x : Compile α} {f : α → Compile β} (first : Carries x)
    (second : ∀ a, Carries (f a)) : Carries (x >>= f) := by
  intro query asked
  have carried := first query asked
  rcases middle : x query with ⟨stop | a, next⟩
  · rw [middle] at carried
    rw [bind_apply_of_error middle, bind_apply_of_error carried]
  · rw [middle] at carried
    rw [bind_apply_of_ok middle, bind_apply_of_ok carried]
    exact second a next asked

end Compile

open Compile (Carries)

mutual
/-- What each comparison carries along, a tree carries along. -/
theorem Filter.compileWith_carries {leaf : Comparison → Compile Predicate}
    (carries : ∀ node, Carries (leaf node)) : (filter : Filter) →
      Carries (filter.compileWith leaf)
  | .comparison node => by
      rw [compileWith]
      exact carries node
  | .logical symbol children => by
      rw [compileWith]
      split
      · exact .reject _
      · exact (compileChildren_carries carries children).bind fun _ => .pure _
  | .extension kind => by
      rw [compileWith]
      exact .reject _

theorem Filter.compileChildren_carries {leaf : Comparison → Compile Predicate}
    (carries : ∀ node, Carries (leaf node)) : (children : List Filter) →
      Carries (compileChildren leaf children)
  | [] => by
      rw [compileChildren]
      exact .pure _
  | child :: children => by
      rw [compileChildren]
      exact (compileWith_carries carries child).bind fun _ =>
        (compileChildren_carries carries children).bind fun _ => .pure _
end

theorem Scope.resolve_carries (scope : Scope) (selector : String) :
    Carries (scope.resolve selector) := by
  intro query asked
  rw [resolve_apply, resolve_apply, Selector.resolve_askingFor]
  cases Selector.resolve scope.metadata scope.mapper scope.steps query scope.origin selector with
  | walking walk => rfl
  | stopped outcome last => cases outcome <;> rfl

theorem Scope.compileBuiltin_carries (scope : Scope) (node : Comparison) :
    Carries (scope.compileBuiltin node) := by
  unfold compileBuiltin
  split
  · exact .reject _
  · exact (scope.resolve_carries node.selector).bind fun _ => .ofExcept _

/-- Without a strategy the compile of a filter carries along what its query asks for. -/
theorem Configuration.compile_carries {configuration : Configuration}
    (builtIn : configuration.tools.strategy = none) (metadata : Metadata) (origin : Origin)
    (steps : Nat) (filter : Filter) :
    Carries (configuration.compile metadata origin steps filter) := by
  rw [Configuration.compile, builtIn, Scope.compile_none]
  exact filter.compileWith_carries fun node => Scope.compileBuiltin_carries _ node

/-! ## Entry points -/

/-- What a query compiler makes of the compile from the root of a query. -/
theorem QueryCompiler.compileInto_eq (compiler : QueryCompiler)
    (builtIn : compiler.configuration.tools.strategy = none) (query : Query) (filter : Filter) :
    compiler.compileInto query filter =
      match compiler.configuration.compile compiler.metadata (.root query.root) compiler.steps
        filter query with
      | (.error stop, _) => .error stop
      | (.ok predicate, next) =>
          .ok { next with
            projection := compiler.projection
            filter := some predicate
            distinct := query.distinct || compiler.configuration.options.distinct } := by
  have carried := Configuration.compile_carries builtIn compiler.metadata (.root query.root)
    compiler.steps filter query { query with projection := compiler.projection }
  have asked_eq : query.askingFor { query with projection := compiler.projection } =
      { query with projection := compiler.projection } := rfl
  rw [asked_eq] at carried
  unfold compileInto
  dsimp only
  rw [carried]
  rcases compiler.configuration.compile compiler.metadata (.root query.root) compiler.steps
    filter query with ⟨stop | predicate, next⟩ <;> rfl

/-- The answers to two queries that differ in their projection alone: no answer to either, or the
rows that are selected and their number. -/
theorem Store.execute_cases (store : Store) {selection counting : Query}
    (same : counting = { selection with projection := .count })
    (selects : selection.projection = .entities) :
    (∃ error, store.execute selection = .error error ∧ store.execute counting = .error error) ∨
      ∃ rows, store.select selection = .ok rows ∧
        store.execute selection = .ok (.entities rows) ∧
        store.execute counting = .ok (.count rows.length) := by
  have select_eq : store.select counting = store.select selection := by
    rw [same]
    rfl
  have counts : counting.projection = .count := by rw [same]
  simp only [execute, selects, counts, count, select_eq]
  cases store.select selection with
  | error error => exact .inl ⟨error, rfl, rfl⟩
  | ok rows => exact .inr ⟨rows, rfl, rfl, rfl⟩

/-- Without a strategy the compilers of rows, of counts and of predicates on the root share one
compile: all of them fail with the same error, or all of them succeed with the same joins and the
same predicate.  The queries have the same root and distinction, and on every store an execution
fails for both or gives the selected rows and their number. -/
theorem compile_agrees_across_entry_points {metadata : Metadata} {configuration : Configuration}
    (builtIn : configuration.tools.strategy = none) (steps : Nat) (root otherRoot : EntityId)
    (query : Query) (projection : Projection) (filter : Filter) :
    let ofRows : QueryCompiler :=
      { metadata, root, projection := .entities, configuration, steps }
    let ofCounts : QueryCompiler :=
      { metadata, root := otherRoot, projection := .count, configuration, steps }
    let ofPredicates : PredicateCompiler :=
      { metadata, context := some .root, configuration, steps }
    (∃ stop, ofRows.compileInto query filter = .error stop ∧
      ofCounts.compileInto { query with projection } filter = .error stop ∧
      (ofPredicates.compile filter query).1 = .error stop) ∨
    ∃ selection counting predicate last,
      ofRows.compileInto query filter = .ok selection ∧
      ofCounts.compileInto { query with projection } filter = .ok counting ∧
      ofPredicates.compile filter query = (.ok predicate, last) ∧
      counting.root = selection.root ∧ counting.joins = selection.joins ∧
      counting.filter = selection.filter ∧ counting.distinct = selection.distinct ∧
      selection.filter = some predicate ∧ last.joins = selection.joins ∧
      ∀ store : Store,
        (∃ error, store.execute selection = .error error ∧
          store.execute counting = .error error) ∨
        ∃ rows, store.select selection = .ok rows ∧
          store.execute selection = .ok (.entities rows) ∧
          store.execute counting = .ok (.count rows.length) := by
  intro ofRows ofCounts ofPredicates
  have rows_eq := ofRows.compileInto_eq builtIn query filter
  have counts_eq := ofCounts.compileInto_eq builtIn { query with projection } filter
  have predicates_eq := ofPredicates.compile_apply filter query
  have carried := Configuration.compile_carries builtIn metadata (.root query.root) steps filter
    query { query with projection }
  have asked_eq : query.askingFor { query with projection } = { query with projection } := rfl
  rw [asked_eq] at carried
  simp only [ofRows] at rows_eq
  simp only [ofCounts, carried] at counts_eq
  simp only [ofPredicates, PredicateCompiler.origin, Query.entityOf_root] at predicates_eq
  have origin_eq : Origin.root query.root = { context := .root, entity := query.root } := rfl
  rw [← origin_eq] at predicates_eq
  rcases compiled : configuration.compile metadata (.root query.root) steps filter query with
    ⟨stop | predicate, last⟩
  · rw [compiled] at rows_eq counts_eq predicates_eq
    exact .inl ⟨stop, rows_eq, counts_eq, congrArg Prod.fst predicates_eq⟩
  · rw [compiled] at rows_eq counts_eq predicates_eq
    exact .inr ⟨_, _, predicate, last, rows_eq, counts_eq, predicates_eq, rfl, rfl, rfl, rfl, rfl,
      rfl, fun store => store.execute_cases rfl rfl⟩

theorem compile_agrees_across_entry_points_company :
    let filter : Filter := .group .and [.comparison ⟨"members.skills", "==", ["lean"]⟩,
      .comparison ⟨"id", "=lt=", ["2"]⟩]
    ∃ selection counting predicate last,
      (QueryCompiler.select company.metadata ⟨1⟩).compileInto (.select ⟨1⟩) filter =
        .ok selection ∧
      (QueryCompiler.count company.metadata ⟨1⟩).compileInto (.count ⟨1⟩) filter = .ok counting ∧
      ({ metadata := company.metadata, context := some .root } : PredicateCompiler).compile filter
        (.select ⟨1⟩) = (.ok predicate, last) ∧
      last.joins.map (·.path) = ["members", "skills"] ∧
      companyStore.execute selection = .ok (.entities [⟨⟨1⟩, 0⟩]) ∧
      companyStore.execute counting = .ok (.count 1) := by
  intro filter
  have answer_eq : ((QueryCompiler.select company.metadata ⟨1⟩).compileInto (.select ⟨1⟩)
      filter).toOption.map (fun query =>
        (query.joins.map (·.path), (companyStore.execute query).toOption)) =
      some (["members", "skills"], some (.entities [⟨⟨1⟩, 0⟩])) := by decide +kernel
  have builtIn : ({} : Configuration).tools.strategy = none := rfl
  rcases compile_agrees_across_entry_points builtIn defaultSteps ⟨1⟩ ⟨1⟩ (.select ⟨1⟩) .count
      filter with
    ⟨stop, refused, -, -⟩ | ⟨selection, counting, predicate, last, selected, counted, visited,
      -, -, -, -, -, joins_eq, answers⟩
  · have refused' : (QueryCompiler.select company.metadata ⟨1⟩).compileInto (.select ⟨1⟩) filter =
        .error stop := refused
    rw [refused'] at answer_eq
    cases answer_eq
  · have selected' : (QueryCompiler.select company.metadata ⟨1⟩).compileInto (.select ⟨1⟩) filter =
        .ok selection := selected
    rw [selected'] at answer_eq
    obtain ⟨paths_eq, execute_eq⟩ := Prod.mk.inj (Option.some.inj answer_eq)
    refine ⟨selection, counting, predicate, last, selected, counted, visited,
      by rw [joins_eq]; exact paths_eq, ?_⟩
    rcases answers companyStore with ⟨error, failed, -⟩ | ⟨rows, -, rows_eq, count_eq⟩
    · rw [failed] at execute_eq
      cases execute_eq
    · rw [rows_eq] at execute_eq ⊢
      obtain rfl : rows = [⟨⟨1⟩, 0⟩] := Answer.entities.inj (Option.some.inj execute_eq)
      exact ⟨rfl, count_eq⟩

end FilterQuery
