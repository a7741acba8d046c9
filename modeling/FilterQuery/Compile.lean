import FilterQuery.Filter
import FilterQuery.Filter.Condition

/-!
# Compiling filters

A compile turns a filter into a predicate and adds the joins it needs to a query.
Joins that were made before a failure stay in the query.  Groups keep their shape:
their children are compiled from left to right, and a group with one child stays a
group.

Operators without a meaning of their own can be given one by a `Strategy`, which
may in turn compile other filters.  Neither that nor the walk of a selector need
come to an end, so both are bounded, and running out of the bound is an outcome of
its own.
-/

namespace FilterQuery

/-- Why a compile stops short. -/
inductive Stop
  /-- The filter is at fault. -/
  | rejected (error : CompileError)
  /-- The bound on steps was too low. -/
  | outOfSteps
  deriving DecidableEq, Repr

/-- A computation that adds joins to a query and may stop short. -/
abbrev Compile := ExceptT Stop (StateM Query)

namespace Compile

def reject {α : Type} (error : CompileError) : Compile α :=
  throw (.rejected error)

/-- An outcome that does not depend on the query. -/
def ofExcept {α : Type} : Except CompileError α → Compile α
  | .ok a => pure a
  | .error error => reject error

end Compile

/-- What a compile goes by. -/
structure Scope where
  metadata : Metadata
  mapper : Mapper
  parser : ArgumentParser
  options : Options
  /-- Where selectors start. -/
  origin : Origin
  /-- The bound on the steps that aliases add to a selector, and on the nesting of
  strategies. -/
  steps : Nat

/-- A meaning for operators that have none of their own.  It is given the means to
compile any filter. -/
abbrev Strategy := Scope → (Filter → Compile Predicate) → Comparison → Compile Predicate

/-! ## Groups -/

/-- A group of predicates. -/
def Predicate.group : LogicalOperator → List Predicate → Predicate
  | .and => .and
  | .or => .or

mutual
/-- Compiles a filter, given how its comparisons are compiled. -/
def Filter.compileWith (leaf : Comparison → Compile Predicate) : Filter → Compile Predicate
  | .comparison node => leaf node
  | .logical symbol children =>
      match LogicalOperator.parse? symbol with
      | none => Compile.reject (.unknownLogicalOperator symbol)
      | some operator => do
          let predicates ← Filter.compileChildren leaf children
          pure (Predicate.group operator predicates)
  | .extension kind => Compile.reject (.unsupportedNodeType kind)

/-- Compiles the children of a group from left to right. -/
def Filter.compileChildren (leaf : Comparison → Compile Predicate) :
    List Filter → Compile (List Predicate)
  | [] => pure []
  | child :: children => do
      let predicate ← Filter.compileWith leaf child
      let predicates ← Filter.compileChildren leaf children
      pure (predicate :: predicates)
end

/-! ## Comparisons -/

namespace Scope

variable (scope : Scope)

/-- How arguments are read. -/
def literals : Literals where
  nullToken := scope.options.nullToken
  parser := scope.parser

/-- Walks a selector and keeps the joins that it needs. -/
def resolve (selector : String) : Compile Attribute := do
  match Selector.resolve scope.metadata scope.mapper scope.steps (← get) scope.origin selector with
  | .walking walk =>
      set walk.query
      throw .outOfSteps
  | .stopped outcome query =>
      set query
      Compile.ofExcept outcome

/-- Compiles a comparison by the meaning that its operator has of its own. -/
def compileBuiltin (node : Comparison) : Compile Predicate :=
  match ComparisonOperator.parse? node.operator with
  | none => Compile.reject (.unknownOperator node.operator)
  | some operator => do
      let target ← scope.resolve node.selector
      Compile.ofExcept
        (scope.literals.condition operator node.operator target node.arguments)

/-- Compiles a comparison, by the strategy if its operator has no meaning of its own. -/
def compileComparison (strategy : Option Strategy) (compile : Filter → Compile Predicate)
    (node : Comparison) : Compile Predicate :=
  match ComparisonOperator.parse? node.operator, strategy with
  | none, some strategy => strategy scope compile node
  | _, _ => scope.compileBuiltin node

/-- Compiles a filter in which strategies are nested at most as deep as given. -/
def compileWithin (strategy : Option Strategy) : Nat → Filter → Compile Predicate
  | 0 => Filter.compileWith (scope.compileComparison strategy fun _ => throw .outOfSteps)
  | depth + 1 =>
      Filter.compileWith (scope.compileComparison strategy (compileWithin strategy depth))

/-- Compiles a filter. -/
def compile (strategy : Option Strategy) (filter : Filter) : Compile Predicate :=
  scope.compileWithin strategy scope.steps filter

end Scope

end FilterQuery
