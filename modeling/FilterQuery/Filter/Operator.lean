/-!
# Operators of filters

The symbols of the comparison and logical operators that have a meaning of their
own.  Some have a synonym; each has one canonical symbol.
-/

namespace FilterQuery

inductive ComparisonOperator
  | equal
  | notEqual
  | greaterThan
  | greaterThanOrEqual
  | lessThan
  | lessThanOrEqual
  | isIn
  | notIn
  deriving DecidableEq, Repr

namespace ComparisonOperator

/-- The operator of a symbol. -/
def parse? : String → Option ComparisonOperator
  | "==" => some .equal
  | "!=" => some .notEqual
  | "=gt=" => some .greaterThan
  | ">" => some .greaterThan
  | "=ge=" => some .greaterThanOrEqual
  | ">=" => some .greaterThanOrEqual
  | "=lt=" => some .lessThan
  | "<" => some .lessThan
  | "=le=" => some .lessThanOrEqual
  | "<=" => some .lessThanOrEqual
  | "=in=" => some .isIn
  | "=out=" => some .notIn
  | _ => none

/-- The canonical symbol. -/
def symbol : ComparisonOperator → String
  | .equal => "=="
  | .notEqual => "!="
  | .greaterThan => "=gt="
  | .greaterThanOrEqual => "=ge="
  | .lessThan => "=lt="
  | .lessThanOrEqual => "=le="
  | .isIn => "=in="
  | .notIn => "=out="

/-- Whether the operator needs an order on the attribute's type. -/
def requiresOrdering : ComparisonOperator → Bool
  | .greaterThan | .greaterThanOrEqual | .lessThan | .lessThanOrEqual => true
  | _ => false

/-- Whether the operator takes a list of arguments. -/
def isMultiValued : ComparisonOperator → Bool
  | .isIn | .notIn => true
  | _ => false

@[simp]
theorem parse?_symbol (operator : ComparisonOperator) : parse? operator.symbol = some operator := by
  cases operator <;> rfl

end ComparisonOperator

inductive LogicalOperator
  | and
  | or
  deriving DecidableEq, Repr

namespace LogicalOperator

/-- Whether a text is a word of ASCII letters, in either case. -/
def isWord (word text : String) : Bool :=
  text.toList.map Char.toLower = word.toList

/-- The operator of a symbol or of its name in either case. -/
def parse? (symbol : String) : Option LogicalOperator :=
  if symbol = ";" ∨ isWord "and" symbol then some .and
  else if symbol = "," ∨ isWord "or" symbol then some .or
  else none

/-- The canonical symbol. -/
def symbol : LogicalOperator → String
  | .and => ";"
  | .or => ","

@[simp]
theorem parse?_symbol (operator : LogicalOperator) : parse? operator.symbol = some operator := by
  cases operator <;> decide +kernel

end LogicalOperator

end FilterQuery
