/-!
# Why a filter is rejected

Each error names the part of the filter at fault.  `message` is the text for
whoever wrote the filter and `code` a stable name of the kind of error; wrong
argument counts share the code of wrong arguments, and a root that is not part of
the query shares the code of a missing one.
-/

namespace FilterQuery

inductive CompileError
  /-- A segment of a selector is no property of the type that should own it. -/
  | unknownProperty (name owner : String)
  /-- A comparison operator without a meaning. -/
  | unknownOperator (symbol : String)
  /-- A group that is neither a conjunction nor a disjunction. -/
  | unknownLogicalOperator (symbol : String)
  /-- An ordering operator on a type without an order. -/
  | notComparable (typeName operator : String)
  /-- An argument that is no value of the attribute's type. -/
  | argumentTypeMismatch (argument expected : String)
  | invalidArgumentCount (operator : String) (found : Nat)
  /-- A node that is neither a comparison nor a group. -/
  | unsupportedNodeType (kind : String)
  /-- A filter that starts nowhere. -/
  | undefinedRoot
  /-- A filter that starts at a place without entities. -/
  | rootNotInQuery (context : String)
  deriving DecidableEq, Repr

namespace CompileError

def message : CompileError → String
  | .unknownProperty name owner => "Unknown property: " ++ name ++ " from entity " ++ owner
  | .unknownOperator symbol => "Unknown operator: " ++ symbol
  | .unknownLogicalOperator symbol => "Unknown logical operator: " ++ symbol
  | .notComparable typeName operator =>
      "Invalid type for comparison operator: " ++ operator ++ " type: " ++ typeName
        ++ " must be comparable"
  | .argumentTypeMismatch argument expected =>
      "Cannot coerce argument '" ++ argument ++ "' to " ++ expected
  | .invalidArgumentCount operator found =>
      "operator " ++ operator ++ " cannot take " ++ toString found ++ " argument(s)"
  | .unsupportedNodeType kind => "Unknown expression type: " ++ kind
  | .undefinedRoot => "From root node was undefined."
  | .rootNotInQuery context => "From root " ++ context ++ " is not an entity of the query."

def code : CompileError → String
  | .unknownProperty _ _ => "UnknownProperty"
  | .unknownOperator _ => "UnknownOperator"
  | .unknownLogicalOperator _ => "UnknownLogicalOperator"
  | .notComparable _ _ => "NotComparable"
  | .argumentTypeMismatch _ _ => "ArgumentTypeMismatch"
  | .invalidArgumentCount _ _ => "ArgumentTypeMismatch"
  | .unsupportedNodeType _ => "UnsupportedNodeType"
  | .undefinedRoot => "UndefinedRoot"
  | .rootNotInQuery _ => "UndefinedRoot"

/-- The message behind its code. -/
def codedMessage (error : CompileError) : String :=
  "[" ++ error.code ++ "] " ++ error.message

end CompileError

end FilterQuery
