import FilterQuery.Coercion
import FilterQuery.Filter.Operator
import FilterQuery.Predicate
import FilterQuery.Selector

/-!
# The condition of one comparison

Once the attribute of a comparison is known, its operator and its arguments give a
condition on the attribute.  Membership takes one or more arguments, every other
operator exactly one.  The null token tests for a missing value, and a text with a
star is a glob pattern; every other argument is read as a value of the
attribute's type.
-/

namespace FilterQuery

/-- What an operator asks of an attribute. -/
inductive ComparisonMeaning
  /-- A comparison with one value. -/
  | comparison (op : CompareOp)
  /-- Membership in a list of values. -/
  | membership (negated : Bool)
  deriving DecidableEq, Repr

/-- What a comparison operator asks of an attribute. -/
def ComparisonOperator.meaning : ComparisonOperator → ComparisonMeaning
  | .equal => .comparison .eq
  | .notEqual => .comparison .ne
  | .greaterThan => .comparison .gt
  | .greaterThanOrEqual => .comparison .ge
  | .lessThan => .comparison .lt
  | .lessThanOrEqual => .comparison .le
  | .isIn => .membership false
  | .notIn => .membership true

/-- Whether a comparison is the negated equality, if it is an equality at all. -/
def CompareOp.negatedEquality? : CompareOp → Option Bool
  | .eq => some false
  | .ne => some true
  | _ => none

/-- Whether a comparison needs an order on the values it compares. -/
def CompareOp.requiresOrdering (op : CompareOp) : Bool :=
  op.negatedEquality? = none

theorem ComparisonOperator.requiresOrdering_of_meaning {operator : ComparisonOperator}
    {op : CompareOp} (h : operator.meaning = .comparison op) :
    operator.requiresOrdering = op.requiresOrdering := by
  cases operator <;> simp [meaning] at h <;> subst h <;> rfl

theorem ComparisonOperator.isMultiValued_iff (operator : ComparisonOperator) :
    operator.isMultiValued ↔ ∃ negated, operator.meaning = .membership negated := by
  cases operator <;> simp [isMultiValued, meaning]

/-- How the literals of a compile are read. -/
structure Literals where
  /-- The argument that stands for a missing value. -/
  nullToken : String
  parser : ArgumentParser

namespace Literals

variable (literals : Literals)

/-- The value of an argument; the null token never reaches the parser. -/
def coerce (argument : String) (type : AttributeType) : Except CompileError Value :=
  if argument = literals.nullToken then .ok .null else literals.parser argument type

/-- The values of arguments, in order, or the error of the first one without a
value. -/
def coerceAll (arguments : List String) (type : AttributeType) :
    Except CompileError (List Value) :=
  arguments.mapM fun argument => literals.coerce argument type

/-- The test for a missing value, which only an equality can be. -/
def nullTest (op : CompareOp) (symbol : String) (target : Attribute) (argument : String) :
    Except CompileError Predicate :=
  match op.negatedEquality? with
  | some negated => .ok (.isNull target.path negated)
  | none =>
      .error (.argumentTypeMismatch argument
        ("a non-null " ++ target.type.name ++ " for " ++ symbol))

/-- The comparison with a value. -/
def valueTest (op : CompareOp) (symbol : String) (target : Attribute) (argument : String) :
    Except CompileError Predicate := do
  let value ← literals.coerce argument target.type
  if op.requiresOrdering && !target.type.isOrderable then
    .error (.notComparable target.type.name symbol)
  else .ok (.compare target.path op value)

/-- The condition of a comparison with one argument. -/
def comparisonTest (op : CompareOp) (symbol : String) (target : Attribute)
    (argument : String) : Except CompileError Predicate :=
  if argument = literals.nullToken then nullTest op symbol target argument
  else
    match op.negatedEquality?, target.type.isTextual && argument.toList.contains '*' with
    | some negated, true => .ok (.like target.path argument negated)
    | _, _ => literals.valueTest op symbol target argument

/-- The condition of an operator, written with a symbol, on an attribute. -/
def condition (operator : ComparisonOperator) (symbol : String) (target : Attribute)
    (arguments : List String) : Except CompileError Predicate :=
  match operator.meaning, arguments with
  | .membership negated, argument :: arguments => do
      let values ← literals.coerceAll (argument :: arguments) target.type
      .ok (.isIn target.path values negated)
  | .comparison op, [argument] => literals.comparisonTest op symbol target argument
  | _, arguments => .error (.invalidArgumentCount symbol arguments.length)

end Literals

end FilterQuery
