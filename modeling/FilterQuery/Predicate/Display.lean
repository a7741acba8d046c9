import FilterQuery.Predicate
import FilterQuery.Value.Display

/-!
# The text of a predicate

Conditions are shown as in SQL: texts are quoted, the stars of a glob pattern
become percent signs, and groups stand in parentheses.
-/

namespace FilterQuery

/-- The text of a context. -/
def Context.display : Context → String
  | .root => "root"
  | .join id => "j" ++ toString id

/-- The text of a path: its segments behind its context, with dots. -/
def AttributePath.display (path : AttributePath) : String :=
  path.root.display ++ String.join (path.segments.map ("." ++ ·))

/-- The sign of a comparison. -/
def CompareOp.sign : CompareOp → String
  | .eq => "="
  | .ne => "<>"
  | .gt => ">"
  | .ge => ">="
  | .lt => "<"
  | .le => "<="

namespace Predicate

/-- The word in front of a negated condition. -/
def negation (negated : Bool) : String :=
  if negated then "NOT " else ""

/-- A glob pattern with percent signs for its stars. -/
def likePattern (pattern : String) : String :=
  String.ofList (pattern.toList.map fun c => if c = '*' then '%' else c)

mutual
/-- The text of a predicate. -/
def display : Predicate → String
  | .compare path op value => path.display ++ " " ++ op.sign ++ " " ++ value.display
  | .like path pattern negated =>
      path.display ++ " " ++ negation negated ++ "LIKE " ++ Text.quoted (likePattern pattern)
  | .isNull path negated => path.display ++ " IS " ++ negation negated ++ "NULL"
  | .isIn path values negated =>
      path.display ++ " " ++ negation negated ++ "IN ("
        ++ ", ".intercalate (values.map Value.display) ++ ")"
  | .and children => "(" ++ " AND ".intercalate (displayChildren children) ++ ")"
  | .or children => "(" ++ " OR ".intercalate (displayChildren children) ++ ")"

/-- The texts of some predicates, in order. -/
def displayChildren : List Predicate → List String
  | [] => []
  | child :: children => child.display :: displayChildren children
end

theorem displayChildren_eq_map (children : List Predicate) :
    displayChildren children = children.map display := by
  induction children with
  | nil => rfl
  | cons child children ih => simp [displayChildren, ih]

end Predicate

end FilterQuery
