import FilterQuery.Proofs.Compile.Alone
import FilterQuery.Proofs.Compile.Offences

/-!
# Failures add up

Joins of other comparisons neither break a comparison nor help it, and do not change the error
that it gives.  So a filter compiles exactly if its groups have operators and its comparisons
compile on their own, and otherwise it fails as the first of its nodes that is at fault.
-/

namespace FilterQuery

namespace Compile

/-- Results that are the same but for the numbers of joins stop for the same reason. -/
theorem Matches.stop?_eq {here alone : Except Stop Predicate × Query}
    (matched : Matches here alone) : stop? here.1 = stop? alone.1 := by
  cases matched <;> rfl

theorem stop?_eq_none_iff {α : Type} {outcome : Except Stop α} :
    stop? outcome = none ↔ ∃ a, outcome = .ok a := by
  cases outcome <;> simp [stop?]

theorem stop?_eq_some_iff {α : Type} {outcome : Except Stop α} {stop : Stop} :
    stop? outcome = some stop ↔ outcome = .error stop := by
  cases outcome <;> simp [stop?]

end Compile

namespace Scope

variable {scope : Scope} {before query next : Query}

/-- A filter stops at its first offence, where comparisons are taken on their own. -/
theorem stop?_compile (numbered : before.Numbered) (has : before.Has scope.origin.context)
    (filter : Filter) :
    Compile.stop? (scope.compile none filter before).1 =
      filter.nodes.findSome?
        (Filter.offence? fun node => Compile.stop? (scope.compileBuiltin node before).1) := by
  rw [compile_none]
  exact filter.stop?_compileWith
    (fun node _ => ⟨compileBuiltin_continued has node, fun _ continued =>
      (compileBuiltin_matches numbered has continued node).stop?_eq⟩)
    before ⟨numbered, .refl before⟩

/-- A comparison whose walk comes to an end stops for an error only. -/
theorem exists_rejected_of_compileBuiltin_eq_error {node : Comparison} {stop : Stop}
    (returns : ∃ outcome last, Selector.resolve scope.metadata scope.mapper scope.steps query
      scope.origin node.selector = .stopped outcome last)
    (h : (scope.compileBuiltin node query).1 = .error stop) : ∃ error, stop = .rejected error := by
  rcases returns with ⟨outcome, last, stopped⟩
  have resolved := scope.resolve_apply node.selector query
  rw [stopped] at resolved
  unfold compileBuiltin at h
  cases meaning : ComparisonOperator.parse? node.operator with
  | none =>
      rw [meaning] at h
      cases h
      exact ⟨_, rfl⟩
  | some operator =>
      rw [meaning] at h
      dsimp only at h
      cases outcome with
      | error error =>
          rw [Compile.bind_apply_of_error resolved] at h
          cases h
          exact ⟨error, rfl⟩
      | ok leaf =>
          rw [Compile.bind_apply_of_ok resolved] at h
          cases condition_eq : scope.literals.condition operator node.operator leaf
              node.arguments with
          | error error =>
              rw [condition_eq] at h
              cases h
              exact ⟨error, rfl⟩
          | ok predicate =>
              rw [condition_eq] at h
              cases h

end Scope

namespace QueryCompiler

variable {compiler : QueryCompiler} {query : Query}

/-- What a compile into a query stops for. -/
theorem stop?_compileInto (builtIn : compiler.configuration.tools.strategy = none) (query : Query)
    (filter : Filter) :
    Compile.stop? (compiler.compileInto query filter) =
      Compile.stop? ((compiler.configuration.scope compiler.metadata (.root query.root)
        compiler.steps).compile none filter
          { query with projection := compiler.projection }).1 := by
  unfold compileInto
  dsimp only
  rw [Configuration.compile, builtIn]
  split
  · rename_i stop next compiled
    rw [compiled]
    rfl
  · rename_i predicate next compiled
    rw [compiled]
    rfl

/-- A filter compiles exactly if its groups have operators, it has no extensions, and each of
its comparisons compiles alone.  Otherwise it stops at the first offence in pre-order, and if
that is a comparison, for what this alone stops for.  Where the walks of all selectors come to
an end, each of these is an error. -/
theorem compileInto_compositional (compiler : QueryCompiler) (table : query.JoinTable)
    (builtIn : compiler.configuration.tools.strategy = none) (filter : Filter) :
    ((∃ result, compiler.compileInto query filter = .ok result) ↔
      filter.Regular ∧ ∀ node ∈ filter.comparisons,
        ∃ result, compiler.compileInto query (.comparison node) = .ok result) ∧
    (∀ stop, compiler.compileInto query filter = .error stop ↔
      filter.nodes.findSome? (Filter.offence? fun node =>
        Compile.stop? (compiler.compileInto query (.comparison node))) = some stop) ∧
    ((∀ node ∈ filter.comparisons, ∃ outcome last,
      Selector.resolve compiler.metadata compiler.configuration.tools.mapper compiler.steps query
        (.root query.root) node.selector = .stopped outcome last) →
      ∀ stop, compiler.compileInto query filter = .error stop →
        ∃ error, stop = .rejected error) := by
  let before : Query := { query with projection := compiler.projection }
  let scope := compiler.configuration.scope compiler.metadata (.root query.root) compiler.steps
  have numbered : before.Numbered := table.numbered.projecting compiler.projection
  have has : before.Has scope.origin.context := trivial
  have alone_eq (node : Comparison) :
      Compile.stop? (compiler.compileInto query (.comparison node)) =
        Compile.stop? (scope.compileBuiltin node before).1 := by
    rw [stop?_compileInto builtIn, Scope.compile_none, Filter.compileWith]
  have stop_eq : Compile.stop? (compiler.compileInto query filter) =
      filter.nodes.findSome? (Filter.offence? fun node =>
        Compile.stop? (compiler.compileInto query (.comparison node))) := by
    rw [stop?_compileInto builtIn, funext alone_eq]
    exact Scope.stop?_compile numbered has filter
  refine ⟨?_, ?_, ?_⟩
  · rw [← Compile.stop?_eq_none_iff, stop_eq, Filter.findSome?_offence?_eq_none_iff]
    simp only [Compile.stop?_eq_none_iff]
  · intro stop
    rw [← Compile.stop?_eq_some_iff, stop_eq]
  · intro returns stop stopped
    rw [← Compile.stop?_eq_some_iff, stop_eq] at stopped
    rcases List.exists_of_findSome?_eq_some stopped with ⟨node, member, offence⟩
    cases node with
    | comparison node =>
        have wrong : Compile.stop? (scope.compileBuiltin node before).1 = some stop :=
          alone_eq node ▸ offence
        refine Scope.exists_rejected_of_compileBuiltin_eq_error ?_
          (Compile.stop?_eq_some_iff.mp wrong)
        -- a walk does not see the projection of its query
        have continues : query.Continues before := ⟨[], (List.append_nil _).symm, nofun⟩
        have retraces : (Selector.resolve scope.metadata scope.mapper scope.steps before
            scope.origin node.selector).Retraces before
              (Selector.resolve scope.metadata scope.mapper scope.steps query scope.origin
                node.selector) :=
          Selector.resolve_retraces table.numbered continues numbered
            (show query.Has scope.origin.context from trivial) _ _
        obtain ⟨outcome, last, ended⟩ :
            ∃ outcome last, Selector.resolve scope.metadata scope.mapper scope.steps query
              scope.origin node.selector = .stopped outcome last :=
          returns node (Filter.mem_comparisons_of_mem_nodes filter member)
        rw [ended] at retraces
        generalize Selector.resolve _ _ _ before _ _ = progress at retraces ⊢
        cases retraces with
        | stopped => exact ⟨_, _, rfl⟩
    | logical symbol children =>
        rw [Filter.offence?] at offence
        split at offence
        · cases offence
          exact ⟨_, rfl⟩
        · cases offence
    | extension kind =>
        cases offence
        exact ⟨_, rfl⟩

/-- The third comparison is at fault, and so is the group behind it. -/
theorem compileInto_compositional_departments :
    let compiler : QueryCompiler := .select company.metadata ⟨1⟩
    let filter : Filter := .group .or [.comparison ⟨"m.skills", "==", ["lean"]⟩,
      .group .and [.comparison ⟨"members.chief.id", "=gt=", ["0"]⟩,
        .comparison ⟨"m.chief.id", "<", ["x"]⟩], .logical "xor" []]
    departments.JoinTable ∧ compiler.compileInto departments filter =
      .error (.rejected (.argumentTypeMismatch "x" "Integer")) := by
  intro compiler filter
  have table := departments_joined.joinTable
  obtain ⟨-, stops_iff, -⟩ := compiler.compileInto_compositional table rfl filter
  exact ⟨table, (stops_iff _).mpr (by decide +kernel)⟩

end QueryCompiler

end FilterQuery
