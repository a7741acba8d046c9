import FilterQuery.Filter.Operator

/-!
# Filters

A filter is the tree of a parsed filter expression: comparisons of a property
with arguments, combined by groups.  Operators are kept as written.  A node of
any other kind is an extension, of which only the name of its kind is known.
-/

namespace FilterQuery

/-- A comparison of a property with literal arguments. -/
structure Comparison where
  /-- The dotted path of the property. -/
  selector : String
  operator : String
  arguments : List String
  deriving DecidableEq, Repr

inductive Filter
  | comparison (node : Comparison)
  | logical (operator : String) (children : List Filter)
  | extension (kind : String)

namespace Filter

/-- A group with the canonical symbol of its operator. -/
def group (operator : LogicalOperator) (children : List Filter) : Filter :=
  .logical operator.symbol children

mutual
/-- The height of a tree: a comparison has height one, an extension none. -/
def depth : Filter → Nat
  | .comparison _ => 1
  | .logical _ children => 1 + depthOfChildren children
  | .extension _ => 0

/-- The height of the highest of some trees. -/
def depthOfChildren : List Filter → Nat
  | [] => 0
  | child :: children => max child.depth (depthOfChildren children)
end

mutual
/-- The comparisons of a tree from left to right. -/
def comparisons : Filter → List Comparison
  | .comparison node => [node]
  | .logical _ children => comparisonsOfChildren children
  | .extension _ => []

def comparisonsOfChildren : List Filter → List Comparison
  | [] => []
  | child :: children => child.comparisons ++ comparisonsOfChildren children
end

mutual
/-- The number of groups in a tree. -/
def groupCount : Filter → Nat
  | .logical _ children => 1 + groupCountOfChildren children
  | _ => 0

def groupCountOfChildren : List Filter → Nat
  | [] => 0
  | child :: children => child.groupCount + groupCountOfChildren children
end

mutual
/-- The kinds of the extensions of a tree from left to right. -/
def extensions : Filter → List String
  | .comparison _ => []
  | .logical _ children => extensionsOfChildren children
  | .extension kind => [kind]

def extensionsOfChildren : List Filter → List String
  | [] => []
  | child :: children => child.extensions ++ extensionsOfChildren children
end

theorem comparisonsOfChildren_eq_flatMap (children : List Filter) :
    comparisonsOfChildren children = children.flatMap comparisons := by
  induction children with
  | nil => rfl
  | cons child children ih => simp [comparisonsOfChildren, ih]

theorem extensionsOfChildren_eq_flatMap (children : List Filter) :
    extensionsOfChildren children = children.flatMap extensions := by
  induction children with
  | nil => rfl
  | cons child children ih => simp [extensionsOfChildren, ih]

end Filter

end FilterQuery
