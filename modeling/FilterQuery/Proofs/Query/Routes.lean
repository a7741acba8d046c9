import FilterQuery.Proofs.Query.Joined
import Mathlib.Data.List.Induction

/-!
# Routes

The route to a join is the route to its parent followed by the path of the join itself:
the whole path from the root, segment by segment.  The index of a query only tells joins
apart by their parents and paths.  Along metadata the route does so too, because an
entity ends where an association does and nowhere else, so that a route can be divided
into joins in one way only.
-/

namespace FilterQuery

/-- The route to a context, given the routes to the joins. -/
def Context.routeIn (routes : List (List String)) : Context → List String
  | .root => []
  | .join id => routes[id]?.getD []

/-- The routes to joins, in order; each is the route to the parent followed by the path of
the join. -/
def routesOf (joins : List Join) : List (List String) :=
  joins.foldl
    (fun routes join => routes ++ [join.parent.routeIn routes ++ Text.segments join.path]) []

@[simp]
theorem Context.routeIn_root (routes : List (List String)) : Context.root.routeIn routes = [] :=
  rfl

@[simp]
theorem routesOf_nil : routesOf [] = [] :=
  rfl

theorem routesOf_concat (joins : List Join) (join : Join) :
    routesOf (joins ++ [join]) =
      routesOf joins ++ [join.parent.routeIn (routesOf joins) ++ Text.segments join.path] := by
  simp [routesOf]

@[simp]
theorem length_routesOf (joins : List Join) : (routesOf joins).length = joins.length := by
  induction joins using List.reverseRecOn with
  | nil => rfl
  | append_singleton joins join ih => simp [routesOf_concat, ih]

/-- Later joins do not change the routes to earlier ones. -/
theorem exists_routesOf_append (joins more : List Join) :
    ∃ added, routesOf (joins ++ more) = routesOf joins ++ added := by
  induction more using List.reverseRecOn with
  | nil => exact ⟨[], by simp⟩
  | append_singleton more join ih =>
      rcases ih with ⟨added, hadded⟩
      rw [← List.append_assoc, routesOf_concat, hadded, List.append_assoc]
      exact ⟨_, rfl⟩

theorem getElem?_routesOf_append {joins : List Join} (more : List Join) {i : Nat}
    (inside : i < joins.length) : (routesOf (joins ++ more))[i]? = (routesOf joins)[i]? := by
  rcases exists_routesOf_append joins more with ⟨added, hadded⟩
  rw [hadded, List.getElem?_append_left (by simpa using inside)]

namespace Query

variable {metadata : Metadata} {query next : Query}

/-- The route to a context of a query. -/
def route (query : Query) (context : Context) : List String :=
  context.routeIn (routesOf query.joins)

@[simp]
theorem route_root (query : Query) : query.route .root = [] :=
  rfl

/-- More joins leave the routes to the old ones as they were. -/
theorem Continues.route_eq (continues : query.Continues next) {context : Context}
    (has : query.Has context) : next.route context = query.route context := by
  rcases continues with ⟨added, hadded, -⟩
  cases context with
  | root => rfl
  | join id =>
      have inside : id < query.joins.length := has
      simp [route, Context.routeIn, hadded, getElem?_routesOf_append added inside]

theorem Extends.route_eq (grows : query.Extends next) {context : Context} {entity : EntityId}
    (h : query.entityOf context = some entity) : next.route context = query.route context :=
  grows.continues.route_eq (has_of_entityOf_eq_some h)

/-- The routes to joins are found at their numbers. -/
theorem getElem?_routesOf_joins (query : Query) {id : JoinId} (inside : id < query.joins.length) :
    (routesOf query.joins)[id]? = some (query.route (.join id)) := by
  have inside' : id < (routesOf query.joins).length := by simpa using inside
  simp [route, Context.routeIn, List.getElem?_eq_getElem inside']

theorem mem_routesOf_joins_iff {path : List String} :
    path ∈ routesOf query.joins ↔ ∃ id < query.joins.length, query.route (.join id) = path := by
  constructor
  · intro member
    rcases List.getElem_of_mem member with ⟨id, inside, path_eq⟩
    have inside' : id < query.joins.length := by simpa using inside
    have found := query.getElem?_routesOf_joins inside'
    rw [List.getElem?_eq_getElem inside, path_eq] at found
    exact ⟨id, inside', (Option.some.inj found).symm⟩
  · rintro ⟨id, inside, rfl⟩
    exact List.mem_of_getElem? (query.getElem?_routesOf_joins inside)

/-- No route is lost when joins are added. -/
theorem Continues.mem_routesOf (continues : query.Continues next) {path : List String}
    (member : path ∈ routesOf query.joins) : path ∈ routesOf next.joins := by
  rcases continues with ⟨added, hadded, -⟩
  rcases exists_routesOf_append query.joins added with ⟨more, hmore⟩
  rw [hadded, hmore]
  exact List.mem_append_left more member

/-- A list divided at one of its places. -/
private theorem exists_append_of_getElem? {joins : List Join} {i : Nat} {join : Join}
    (h : joins[i]? = some join) :
    ∃ front back, joins = front ++ join :: back ∧ front.length = i := by
  rcases List.getElem?_eq_some_iff.mp h with ⟨inside, rfl⟩
  refine ⟨joins.take i, joins.drop (i + 1), ?_, ?_⟩
  · rw [List.getElem_cons_drop, List.take_append_drop]
  · simp [Nat.min_eq_left (Nat.le_of_lt inside)]

/-- The route to a join is the route to its parent followed by its path. -/
theorem Numbered.route_join (numbered : query.Numbered) {i : Nat} {join : Join}
    (h : query.joins[i]? = some join) :
    query.route (.join i) = query.route join.parent ++ Text.segments join.path := by
  -- only the joins in front of it bear on the route to a join
  rcases exists_append_of_getElem? h with ⟨front, back, joins_eq, rfl⟩
  have parent_route : join.parent.routeIn (routesOf front) = query.route join.parent := by
    cases parent_eq : join.parent with
    | root => rfl
    | join id =>
        have below := numbered.parent_lt h parent_eq
        simp [route, Context.routeIn, joins_eq, getElem?_routesOf_append _ below]
  have routes_eq : (routesOf query.joins)[front.length]? =
      (routesOf (front ++ [join]))[front.length]? := by
    rw [joins_eq, ← List.singleton_append, ← List.append_assoc]
    exact getElem?_routesOf_append back (by simp)
  rw [route, Context.routeIn, routes_eq, routesOf_concat, parent_route,
    List.getElem?_append_right (by simp)]
  simp

/-- The route to the join of a parent and a path. -/
theorem Numbered.route_ensureJoin (numbered : query.Numbered) {parent : Context}
    (has : query.Has parent) (path : String) (target : JoinTarget) :
    (query.ensureJoin parent path target).2.route
        (.join (query.ensureJoin parent path target).1) =
      query.route parent ++ Text.segments path := by
  have made := numbered.ensureJoin has path target
  have continues := (extends_ensureJoin query parent path target).continues
  cases h : query.index.get? (parent, path) with
  | some id =>
      rw [ensureJoin_of_get?_eq_some h]
      rcases numbered.get?_index_iff.mp h with ⟨join, hjoin, rfl, rfl⟩
      exact numbered.route_join hjoin
  | none =>
      have last := (getElem?_joins_ensureJoin_of_none h target _ _).mpr (.inr ⟨rfl, rfl⟩)
      have id_eq : (query.ensureJoin parent path target).1 = query.joins.length := by
        simp [Query.ensureJoin, h]
      rw [id_eq, made.route_join last, continues.route_eq has]

theorem Joined.route_join (joined : query.Joined metadata) {i : Nat} {join : Join}
    (h : query.joins[i]? = some join) :
    query.route (.join i) = query.route join.parent ++ Text.segments join.path :=
  joined.numbered.route_join h

/-- Making a join adds its route and no other one. -/
theorem Numbered.mem_routesOf_ensureJoin_iff (numbered : query.Numbered) (parent : Context)
    (path : String) (target : JoinTarget) {route : List String} :
    route ∈ routesOf (query.ensureJoin parent path target).2.joins ↔
      route ∈ routesOf query.joins ∨ route = query.route parent ++ Text.segments path := by
  cases h : query.index.get? (parent, path) with
  | some id =>
      rw [ensureJoin_of_get?_eq_some h]
      rcases numbered.get?_index_iff.mp h with ⟨join, hjoin, rfl, rfl⟩
      constructor
      · exact .inl
      · rintro (member | rfl)
        · exact member
        · rw [← numbered.route_join hjoin]
          exact mem_routesOf_joins_iff.mpr ⟨id, (List.getElem?_eq_some_iff.mp hjoin).1, rfl⟩
  | none =>
      have joins_eq : (query.ensureJoin parent path target).2.joins =
          query.joins ++ [{ id := query.joins.length, parent, path, target }] := by
        simp [Query.ensureJoin, h]
      rw [joins_eq, routesOf_concat, List.mem_append, List.mem_singleton]
      rfl

theorem Joined.route_join_ne_nil (joined : query.Joined metadata) {i : Nat} {join : Join}
    (h : query.joins[i]? = some join) : query.route (.join i) ≠ [] := by
  rw [joined.route_join h]
  exact List.append_ne_nil_of_right_ne_nil _ (Text.segments_ne_nil join.path)

/-- The route to an entity leads to it, whatever joins it is divided into. -/
theorem Joined.locate_route (joined : query.Joined metadata) {context : Context}
    {entity : EntityId} (h : query.entityOf context = some entity) :
    metadata.locate ⟨query.root, []⟩ (query.route context) = some ⟨entity, []⟩ := by
  cases context with
  | root =>
      obtain rfl : query.root = entity := by simpa using h
      rfl
  | join id =>
      -- parents come before their children, so the induction is on the number of the join
      induction id using Nat.strongRecOn generalizing entity with
      | ind id ih =>
          rcases entityOf_join_eq_some_iff.mp h with ⟨join, hjoin, target_eq⟩
          rcases joined.leads hjoin with ⟨owner, howner, kind, hkind, joinTarget_eq⟩
          have parent_located : metadata.locate ⟨query.root, []⟩ (query.route join.parent) =
              some ⟨owner, []⟩ := by
            cases parent_eq : join.parent with
            | root =>
                rw [parent_eq] at howner
                obtain rfl : query.root = owner := by simpa using howner
                rfl
            | join above =>
                rw [parent_eq] at howner
                exact ih above (joined.parent_lt hjoin parent_eq) howner
          obtain ⟨cardinality, rfl⟩ : ∃ cardinality,
              kind = .association entity cardinality := by
            rw [target_eq] at joinTarget_eq
            cases kind <;> simp_all [PropertyKind.joinTarget?]
          rw [joined.route_join hjoin, Metadata.locate_append, parent_located]
          exact metadata.locate_of_propertyAt? hkind

/-- An entity is not found in the middle of the path of a join. -/
theorem Joined.eq_nil_of_route_eq_append (joined : query.Joined metadata)
    {context inner : Context} {owner entity : EntityId} {path rest : List String}
    {kind : PropertyKind} (howner : query.entityOf context = some owner)
    (hentity : query.entityOf inner = some entity)
    (hkind : metadata.propertyAt? owner (path ++ rest) = some kind) (hrest : rest ≠ [])
    (route_eq : query.route inner = query.route context ++ path) : path = [] := by
  rcases metadata.compositeAt?_isSome_of_propertyAt? hkind hrest with ⟨composite, hcomposite⟩
  have located := joined.locate_route hentity
  rw [route_eq, Metadata.locate_append, joined.locate_route howner, Option.bind_some,
    metadata.locate_of_compositeAt? hcomposite] at located
  simpa using congrArg Metadata.Place.embedded (Option.some.inj located)

/-- Different joins have different routes. -/
theorem Joined.eq_of_route_eq (joined : query.Joined metadata) {i j : Nat} {first second : Join}
    (hfirst : query.joins[i]? = some first) (hsecond : query.joins[j]? = some second)
    (route_eq : query.route (.join i) = query.route (.join j)) : i = j := by
  induction i using Nat.strongRecOn generalizing j first second with
  | ind i ih =>
      rcases joined.leads hfirst with ⟨owner, howner, kind, hkind, -⟩
      rcases joined.leads hsecond with ⟨owner', howner', kind', hkind', -⟩
      have both := route_eq
      rw [joined.route_join hfirst, joined.route_join hsecond] at both
      -- neither parent is in the middle of the other join's path, so both divide the
      -- route at the same place
      obtain ⟨parents_eq, paths_eq⟩ : query.route first.parent = query.route second.parent ∧
          Text.segments first.path = Text.segments second.path := by
        rcases List.append_eq_append_iff.mp both with ⟨path, hroute, hpath⟩ | ⟨path, hroute, hpath⟩
        · rw [hpath] at hkind
          obtain rfl := joined.eq_nil_of_route_eq_append howner howner' hkind
            (Text.segments_ne_nil second.path) hroute
          exact ⟨by simpa using hroute.symm, by simpa using hpath⟩
        · rw [hpath] at hkind'
          obtain rfl := joined.eq_nil_of_route_eq_append howner' howner hkind'
            (Text.segments_ne_nil first.path) hroute
          exact ⟨by simpa using hroute, by simpa using hpath.symm⟩
      refine joined.numbered.eq_of_key_eq hfirst hsecond ?_ (Text.segments_injective paths_eq)
      cases hp : first.parent with
      | root =>
          cases hq : second.parent with
          | root => rfl
          | join id =>
              rw [hq] at howner' parents_eq
              rw [hp] at parents_eq
              rcases entityOf_join_eq_some_iff.mp howner' with ⟨above, habove, -⟩
              exact absurd parents_eq.symm (joined.route_join_ne_nil habove)
      | join id =>
          rw [hp] at howner parents_eq
          rcases entityOf_join_eq_some_iff.mp howner with ⟨above, habove, -⟩
          cases hq : second.parent with
          | root =>
              rw [hq] at parents_eq
              exact absurd parents_eq (joined.route_join_ne_nil habove)
          | join id' =>
              rw [hq] at howner' parents_eq
              rcases entityOf_join_eq_some_iff.mp howner' with ⟨above', habove', -⟩
              rw [ih id (joined.parent_lt hfirst hp) habove habove' parents_eq]

end Query

end FilterQuery
