import FilterQuery.Proofs.Meaning.Choices
import Mathlib.Data.List.Nodup

/-!
# Choices along joins

The targets at the route of a join depend on the choices at the routes of earlier joins
only.  So the choices that the joins of a query permit can be listed join by join, each of
them once, as an execution lists its tuples.
-/

namespace FilterQuery

namespace Query

variable {metadata : Metadata} {query : Query}

/-- The routes to the first joins. -/
def routesTo (query : Query) (count : Nat) : List (List String) :=
  (List.range count).map fun id => query.route (.join id)

theorem routesTo_succ (query : Query) (count : Nat) :
    query.routesTo (count + 1) = query.routesTo count ++ [query.route (.join count)] := by
  simp [routesTo, List.range_succ]

theorem mem_routesTo_iff {count : Nat} {path : List String} :
    path ∈ query.routesTo count ↔ ∃ id < count, query.route (.join id) = path := by
  simp [routesTo]

theorem mem_routesTo_length_iff {path : List String} :
    path ∈ query.routesTo query.joins.length ↔ path ∈ routesOf query.joins :=
  mem_routesTo_iff.trans mem_routesOf_joins_iff.symm

theorem Joined.eq_of_route_join_eq (joined : query.Joined metadata) {i j : Nat}
    (first : i < query.joins.length) (second : j < query.joins.length)
    (route_eq : query.route (.join i) = query.route (.join j)) : i = j :=
  joined.eq_of_route_eq (List.getElem?_eq_getElem first) (List.getElem?_eq_getElem second) route_eq

theorem Joined.route_not_mem_routesTo (joined : query.Joined metadata) {id : JoinId}
    (inside : id < query.joins.length) : query.route (.join id) ∉ query.routesTo id := by
  intro member
  rcases mem_routesTo_iff.mp member with ⟨earlier, below, route_eq⟩
  have := joined.eq_of_route_join_eq (Nat.lt_trans below inside) inside route_eq
  omega

end Query

namespace ObjectGraph

variable {graph : ObjectGraph} {query : Query} {choice other : Choice}

/-! ## Targets of joins -/

/-- The route to an entity leads to a spot of that entity. -/
theorem owner_of_reach (joined : query.Joined graph.metadata)
    (root_eq : query.root = graph.root.entity) {context : Context} {entity : EntityId} {spot : Spot}
    (entity_eq : query.entityOf context = some entity)
    (reached : graph.reach choice (query.route context) = some spot) : spot.owner = entity := by
  rcases locate_of_follow reached [] with ⟨remembered, located⟩
  have route_located := joined.locate_route entity_eq
  rw [root_eq, located] at route_located
  exact congrArg Metadata.Place.owner (Option.some.inj route_located)

/-- The targets of a join are what navigation finds from the spot of its parent. -/
theorem targets_route (joined : query.Joined graph.metadata)
    (root_eq : query.root = graph.root.entity) {i : Nat} {join : Join}
    (join_eq : query.joins[i]? = some join) :
    graph.targets choice (query.route (.join i)) =
      match graph.reach choice (query.route join.parent) with
      | some spot => Store.bindings (Record.navigate? spot.fields (Text.segments join.path))
      | none => [] := by
  rcases joined.leads join_eq with ⟨owner, owner_eq, kind, kind_eq, -⟩
  obtain ⟨front, last, inner, path_eq, composite, -⟩ :=
    graph.metadata.exists_of_propertyAt?_eq_some kind_eq
  rw [targets, joined.route_join join_eq, path_eq, ← List.append_assoc]
  simp only [List.getLast?_concat, List.dropLast_concat, reach_append]
  cases reached : graph.reach choice (query.route join.parent) with
  | none => rfl
  | some spot =>
      rw [← owner_of_reach joined root_eq owner_eq reached] at composite
      obtain ⟨fields, followed, found⟩ :=
        exists_follow_of_compositeAt? composite spot.fields (query.route join.parent)
      simp only [Option.bind_some]
      rw [followed]
      simp only [found]

/-- The route to an entity leads to the target that is chosen for its join. -/
theorem reach_route_join (joined : query.Joined graph.metadata)
    (root_eq : query.root = graph.root.entity) {i : Nat} {join : Join} {entity : EntityId}
    (join_eq : query.joins[i]? = some join) (target_eq : join.target = .entity entity) :
    graph.reach choice (query.route (.join i)) =
      match (graph.targets choice (query.route (.join i)))[choice (query.route (.join i))]? with
      | some (.row row) => some ⟨entity, graph.store.fieldsOf row⟩
      | _ => none := by
  rcases joined.leads join_eq with ⟨owner, owner_eq, kind, kind_eq, leads⟩
  obtain ⟨front, last, inner, path_eq, composite, property⟩ :=
    graph.metadata.exists_of_propertyAt?_eq_some kind_eq
  obtain ⟨cardinality, rfl⟩ : ∃ cardinality, kind = .association entity cardinality := by
    rw [target_eq] at leads
    cases kind <;> simp_all [PropertyKind.joinTarget?]
  rw [targets_route joined root_eq join_eq, joined.route_join join_eq, reach_append]
  cases reached : graph.reach choice (query.route join.parent) with
  | none => simp
  | some spot =>
      rw [← owner_of_reach joined root_eq owner_eq reached] at composite
      obtain ⟨fields, followed, found⟩ :=
        exists_follow_of_compositeAt? composite spot.fields (query.route join.parent)
      rw [path_eq, Option.bind_some]
      dsimp only
      rw [follow_append, followed, ← found]
      simp only [Option.bind_some, follow, enter, property, List.append_assoc]
      split <;> simp_all

/-- The choices at the routes of a join and of those in front of it decide what it leads to. -/
theorem reach_congr (joined : query.Joined graph.metadata)
    (root_eq : query.root = graph.root.entity) {context : Context} {entity : EntityId}
    (entity_eq : query.entityOf context = some entity) {count : Nat}
    (below : ∀ id, context = .join id → id < count)
    (agree : ∀ id < count, choice (query.route (.join id)) = other (query.route (.join id))) :
    graph.reach choice (query.route context) = graph.reach other (query.route context) := by
  cases context with
  | root => rfl
  | join id =>
      have inside := below id rfl
      clear below
      induction id using Nat.strongRecOn generalizing entity with
      | ind id ih =>
          rcases Query.entityOf_join_eq_some_iff.mp entity_eq with ⟨join, join_eq, target_eq⟩
          rcases joined.leads join_eq with ⟨owner, owner_eq, -⟩
          have parent_eq : graph.reach choice (query.route join.parent) =
              graph.reach other (query.route join.parent) := by
            cases parent : join.parent with
            | root => rfl
            | join above =>
                have lower := joined.parent_lt join_eq parent
                rw [parent] at owner_eq
                exact ih above lower owner_eq (Nat.lt_trans lower inside)
          rw [reach_route_join joined root_eq join_eq target_eq,
            reach_route_join joined root_eq join_eq target_eq,
            targets_route joined root_eq join_eq, targets_route joined root_eq join_eq,
            parent_eq, agree id inside]

/-- The choices at the routes of earlier joins decide the targets of a join. -/
theorem targets_congr (joined : query.Joined graph.metadata)
    (root_eq : query.root = graph.root.entity) {count : Nat} (inside : count < query.joins.length)
    (agree : ∀ id < count, choice (query.route (.join id)) = other (query.route (.join id))) :
    graph.targets choice (query.route (.join count)) =
      graph.targets other (query.route (.join count)) := by
  have join_eq := List.getElem?_eq_getElem inside
  rcases joined.leads join_eq with ⟨owner, owner_eq, -⟩
  rw [targets_route joined root_eq join_eq, targets_route joined root_eq join_eq,
    reach_congr joined root_eq owner_eq (fun _ parent => joined.parent_lt join_eq parent) agree]

/-! ## Listing choices -/

/-- The choices for some paths, path by path. -/
def choices (graph : ObjectGraph) (paths : List (List String)) : List Choice :=
  paths.foldl
    (fun choices path => choices.flatMap fun choice =>
      (List.range (graph.targets choice path).length).map (Function.update choice path))
    [fun _ => 0]

theorem choices_concat (paths : List (List String)) (path : List String) :
    graph.choices (paths ++ [path]) = (graph.choices paths).flatMap fun choice =>
      (List.range (graph.targets choice path).length).map (Function.update choice path) := by
  simp [choices]

/-- A choice at the route of a join does not bear on the targets of that join and of those in
front of it. -/
theorem targets_update (joined : query.Joined graph.metadata)
    (root_eq : query.root = graph.root.entity) {id count : Nat} (below : id ≤ count)
    (inside : count < query.joins.length) (place : Nat) :
    graph.targets (Function.update choice (query.route (.join count)) place)
        (query.route (.join id)) = graph.targets choice (query.route (.join id)) := by
  apply targets_congr joined root_eq (by omega)
  intro earlier lower
  apply Function.update_of_ne
  intro route_eq
  have := joined.eq_of_route_join_eq (by omega) inside route_eq
  omega

/-- A choice at the route of a join leaves those at the routes in front of it. -/
theorem update_of_mem_routesTo (joined : query.Joined graph.metadata) {count : Nat}
    (inside : count < query.joins.length) (place : Nat) {path : List String}
    (member : path ∈ query.routesTo count) :
    Function.update choice (query.route (.join count)) place path = choice path :=
  Function.update_of_ne
    (ne_of_mem_of_not_mem member (joined.route_not_mem_routesTo inside)) _ _

/-- One more join permits one more choice, of one of its targets. -/
theorem permits_update_iff (joined : query.Joined graph.metadata)
    (root_eq : query.root = graph.root.entity) {count : Nat} (inside : count < query.joins.length)
    (unset : choice (query.route (.join count)) = 0) (place : Nat) :
    graph.Permits (Function.update choice (query.route (.join count)) place)
        (query.routesTo (count + 1)) ↔
      graph.Permits choice (query.routesTo count) ∧
        place < (graph.targets choice (query.route (.join count))).length := by
  have mem_iff (path : List String) : path ∈ query.routesTo (count + 1) ↔
      path ∈ query.routesTo count ∨ path = query.route (.join count) := by
    rw [Query.routesTo_succ, List.mem_append, List.mem_singleton]
  have targets_eq {path : List String} (member : path ∈ query.routesTo (count + 1)) :
      graph.targets (Function.update choice (query.route (.join count)) place) path =
        graph.targets choice path := by
    rcases Query.mem_routesTo_iff.mp member with ⟨id, below, rfl⟩
    exact targets_update joined root_eq (by omega) inside place
  constructor
  · intro permits
    constructor
    · constructor
      · intro path absent
        by_cases path_eq : path = query.route (.join count)
        · rw [path_eq, unset]
        · rw [← permits.eq_zero path fun member => ((mem_iff path).mp member).elim absent path_eq,
            Function.update_of_ne path_eq]
      · intro path member
        have old := (mem_iff path).mpr (.inl member)
        have chosen := permits.lt_length path old
        rwa [targets_eq old, update_of_mem_routesTo joined inside place member] at chosen
    · have last := (mem_iff _).mpr (.inr rfl)
      have chosen := permits.lt_length _ last
      rwa [targets_eq last, Function.update_self] at chosen
  · rintro ⟨permits, place_lt⟩
    constructor
    · intro path absent
      have path_ne : path ≠ query.route (.join count) :=
        fun path_eq => absent ((mem_iff path).mpr (.inr path_eq))
      rw [Function.update_of_ne path_ne]
      exact permits.eq_zero path fun member => absent ((mem_iff path).mpr (.inl member))
    · intro path member
      rw [targets_eq member]
      rcases (mem_iff path).mp member with old | rfl
      · rw [update_of_mem_routesTo joined inside place old]
        exact permits.lt_length path old
      · rwa [Function.update_self]

/-- The listed choices are those that the joins permit. -/
theorem mem_choices_iff (joined : query.Joined graph.metadata)
    (root_eq : query.root = graph.root.entity) {count : Nat} (inside : count ≤ query.joins.length) :
    choice ∈ graph.choices (query.routesTo count) ↔
      graph.Permits choice (query.routesTo count) := by
  induction count generalizing choice with
  | zero =>
      constructor
      · intro member
        obtain rfl : choice = fun _ => 0 := by simpa [choices, Query.routesTo] using member
        exact ⟨fun _ _ => rfl, by simp [Query.routesTo]⟩
      · intro permits
        have choice_eq : choice = fun _ => 0 := by
          funext path
          exact permits.eq_zero path (by simp [Query.routesTo])
        simp [choices, Query.routesTo, choice_eq]
  | succ count ih =>
      have fresh := joined.route_not_mem_routesTo inside
      rw [Query.routesTo_succ, choices_concat, ← Query.routesTo_succ, List.mem_flatMap]
      constructor
      · rintro ⟨before, member, updated⟩
        rcases List.mem_map.mp updated with ⟨place, place_lt, rfl⟩
        have permits := (ih (by omega)).mp member
        exact (permits_update_iff joined root_eq inside (permits.eq_zero _ fresh) place).mpr
          ⟨permits, List.mem_range.mp place_lt⟩
      · intro permits
        let before := Function.update choice (query.route (.join count)) 0
        have unset : before (query.route (.join count)) = 0 := Function.update_self ..
        have choice_eq : Function.update before (query.route (.join count))
            (choice (query.route (.join count))) = choice := by simp [before]
        rw [← choice_eq, permits_update_iff joined root_eq inside unset] at permits
        rcases permits with ⟨permits_before, place_lt⟩
        exact ⟨before, (ih (by omega)).mpr permits_before,
          List.mem_map.mpr ⟨_, List.mem_range.mpr place_lt, choice_eq⟩⟩

/-- No choice is listed twice. -/
theorem nodup_choices (joined : query.Joined graph.metadata)
    (root_eq : query.root = graph.root.entity) {count : Nat} (inside : count ≤ query.joins.length) :
    (graph.choices (query.routesTo count)).Nodup := by
  induction count with
  | zero => simp [choices, Query.routesTo]
  | succ count ih =>
      have fresh := joined.route_not_mem_routesTo inside
      rw [Query.routesTo_succ, choices_concat, List.nodup_flatMap]
      constructor
      · intro before _
        apply List.Nodup.map _ List.nodup_range
        intro first second updates_eq
        simpa using congrFun updates_eq (query.route (.join count))
      · apply (ih (by omega)).imp_of_mem
        intro first second first_mem second_mem first_ne
        have zero {before : Choice} (member : before ∈ graph.choices (query.routesTo count)) :
            before (query.route (.join count)) = 0 :=
          ((mem_choices_iff joined root_eq (by omega)).mp member).eq_zero _ fresh
        -- the updates agree everywhere else, and there both choices were nothing yet
        intro updated first_updated second_updated
        rcases List.mem_map.mp first_updated with ⟨i, -, rfl⟩
        rcases List.mem_map.mp second_updated with ⟨j, -, updates_eq⟩
        apply first_ne
        funext path
        by_cases path_eq : path = query.route (.join count)
        · rw [path_eq, zero first_mem, zero second_mem]
        · simpa [Function.update_of_ne path_eq] using (congrFun updates_eq path).symm

end ObjectGraph

end FilterQuery
