import FilterQuery.Query

/-!
# Explaining a query

The text of a query in the manner of SQL: what it gives, its joins in the order
in which they were made, and its filter.
-/

namespace FilterQuery

/-- The words that open a join. -/
def JoinKind.keyword : JoinKind → String
  | .inner => "JOIN"
  | .left => "LEFT JOIN"

/-- The text of a join, behind a blank. -/
def Join.explain (join : Join) : String :=
  " " ++ join.kind.keyword ++ " " ++ join.parent.display ++ "." ++ join.path ++ " "
    ++ (Context.join join.id).display

namespace Query

/-- What a query gives. -/
def explainProjection (query : Query) : String :=
  let distinct := if query.distinct then "DISTINCT " else ""
  match query.projection with
  | .entities => distinct ++ "root"
  | .count => "COUNT(" ++ distinct ++ "root)"

/-- The text of a query. -/
def explain (query : Query) (metadata : Metadata) : String :=
  "SELECT " ++ query.explainProjection ++ " FROM " ++ metadata.displayName query.root ++ " root"
    ++ String.join (query.joins.map Join.explain)
    ++ (match query.filter with
      | some filter => " WHERE " ++ filter.display
      | none => "")

end Query

end FilterQuery
