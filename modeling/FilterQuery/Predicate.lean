import FilterQuery.Value

/-!
# Predicates

A compiled filter is a condition on attributes.  An attribute is reached from
the root of a query, or from one of its joins, through the composites that are
stored inside an entity.  The tree of a predicate has the shape of the tree of the
filter.
-/

namespace FilterQuery

/-- The number of a join: its place in the order in which the joins of a query
were made.  Numbers are kept in 32 bits where queries are stored and run, so a query is meant to
have fewer than `2 ^ 32` joins; here nothing is cut off. -/
abbrev JoinId := Nat

/-- Where a path starts. -/
inductive Context
  | root
  | join (id : JoinId)
  deriving DecidableEq, Repr

/-- An attribute of a context.  Without segments it is the joined element, or the
identifier of the joined entity. -/
structure AttributePath where
  root : Context
  segments : List String
  deriving DecidableEq, Repr

inductive CompareOp
  | eq
  | ne
  | gt
  | ge
  | lt
  | le
  deriving DecidableEq, Repr

inductive Predicate
  | compare (path : AttributePath) (op : CompareOp) (value : Value)
  /-- A glob pattern in which `*` stands for any run of characters. -/
  | like (path : AttributePath) (pattern : String) (negated : Bool)
  | isNull (path : AttributePath) (negated : Bool)
  /-- Membership in a list of values. -/
  | isIn (path : AttributePath) (values : List Value) (negated : Bool)
  | and (children : List Predicate)
  | or (children : List Predicate)

namespace Predicate

mutual
/-- The number of conditions that are not groups. -/
def leafCount : Predicate → Nat
  | .and children => leafCountOfChildren children
  | .or children => leafCountOfChildren children
  | _ => 1

def leafCountOfChildren : List Predicate → Nat
  | [] => 0
  | child :: children => child.leafCount + leafCountOfChildren children
end

theorem leafCountOfChildren_eq_foldr (children : List Predicate) :
    leafCountOfChildren children = (children.map leafCount).foldr (· + ·) 0 := by
  induction children with
  | nil => rfl
  | cons child children ih => simp [leafCountOfChildren, ih]

end Predicate

end FilterQuery
