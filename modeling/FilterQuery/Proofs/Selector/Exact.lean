import FilterQuery.Filter
import FilterQuery.Proofs.Query.Routes
import FilterQuery.Proofs.Selector.Soundness

/-!
# Walks without aliases

Metadata alone says what a selector leads to and which of its paths are joined.  A walk
without aliases does just that: its joins and the composites behind them spell out the
selector, it makes the joins that the selector needs and no others, and it ends with the
type, or the error, that metadata gives.
-/

namespace FilterQuery

namespace Metadata

variable (metadata : Metadata)

/-- The type at the end of a selector, or where the selector is stuck. -/
def selectorType : EntityId → List String → Except CompileError AttributeType
  | owner, [] => .error (.unknownProperty "" (metadata.displayName owner))
  | owner, [last] =>
      match metadata.property owner last with
      | none => .error (.unknownProperty last (metadata.displayName owner))
      | some (.attribute type) => .ok type
      | some (.embedded inner) => .ok (.object (metadata.displayName inner) false)
      | some (.association target _) => Selector.referenceType metadata target
      | some (.elements type) => .ok type
  | owner, segment :: next :: rest =>
      match metadata.property owner segment with
      | none => .error (.unknownProperty segment (metadata.displayName owner))
      | some (.attribute type) => .error (.unknownProperty next type.name)
      | some (.embedded inner) => selectorType inner (next :: rest)
      | some (.association target _) => selectorType target (next :: rest)
      | some (.elements type) => .error (.unknownProperty next type.name)

/-- The paths of a selector that are joined, behind a path that has been passed.  A single
entity at the end of a selector is not. -/
def joinedPaths : EntityId → List String → List String → List (List String)
  | _, _, [] => []
  | owner, passed, segment :: rest =>
      match metadata.property owner segment with
      | some (.embedded inner) => joinedPaths inner (passed ++ [segment]) rest
      | some (.association target cardinality) =>
          if rest = [] ∧ cardinality = .single then []
          else (passed ++ [segment]) :: joinedPaths target (passed ++ [segment]) rest
      | some (.elements _) => [passed ++ [segment]]
      | _ => []

variable {metadata : Metadata} {owner inner target : EntityId} {cardinality : Cardinality}
  {passed rest : List String} {segment : String}

/-- A selector that goes on behind a composite has the type of what follows. -/
theorem selectorType_embedded (property : metadata.property owner segment = some (.embedded inner))
    (more : rest ≠ []) :
    metadata.selectorType owner (segment :: rest) = metadata.selectorType inner rest := by
  rcases List.exists_cons_of_ne_nil more with ⟨next, others, rfl⟩
  rw [selectorType, property]

/-- So has one that goes on behind an association. -/
theorem selectorType_association
    (property : metadata.property owner segment = some (.association target cardinality))
    (more : rest ≠ []) :
    metadata.selectorType owner (segment :: rest) = metadata.selectorType target rest := by
  rcases List.exists_cons_of_ne_nil more with ⟨next, others, rfl⟩
  rw [selectorType, property]

/-- An association that a selector goes on behind is joined. -/
theorem joinedPaths_association
    (property : metadata.property owner segment = some (.association target cardinality))
    (more : rest ≠ []) :
    metadata.joinedPaths owner passed (segment :: rest) =
      (passed ++ [segment]) :: metadata.joinedPaths target (passed ++ [segment]) rest := by
  rw [joinedPaths, property]
  exact if_neg fun last => more last.1

end Metadata

/-- The paths that the selectors of a filter join. -/
def Filter.joinedPaths (metadata : Metadata) (root : EntityId) (filter : Filter) :
    List (List String) :=
  filter.comparisons.flatMap fun node =>
    metadata.joinedPaths root [] (Text.segments node.selector)

namespace Selector

variable {metadata : Metadata} {mapper : Mapper} {selector : String} {before query : Query}
  {walk : Walk} {route : List String} {type : Except CompileError AttributeType}
  {paths : List (List String)}

theorem expand_of_noAliases (noAliases : ∀ owner name, mapper owner name = none)
    (owner : EntityId) (pending : List String) : expand mapper owner pending = pending := by
  rcases expand_cases mapper owner pending with unchanged | ⟨length, path, -, mapped, -⟩
  · exact unchanged
  · simp [noAliases] at mapped

/-- The path from the root to where a walk is. -/
def Walk.passed (walk : Walk) : List String :=
  walk.query.route walk.context ++ walk.embedded

/-- A walk on its way along a route, to a type, with the joins of some paths. -/
structure Walk.Exact (metadata : Metadata) (route : List String)
    (type : Except CompileError AttributeType) (paths : List (List String)) (walk : Walk) :
    Prop where
  route_eq : walk.passed ++ walk.pending = route
  type_eq : metadata.selectorType walk.owner walk.pending = type
  mem_paths_iff : ∀ path, path ∈ routesOf walk.query.joins ∨
    path ∈ metadata.joinedPaths walk.owner walk.passed walk.pending ↔ path ∈ paths
  more : walk.pending ≠ []

/-- The end of a walk along a route. -/
structure EndedExactly (route : List String) (type : Except CompileError AttributeType)
    (paths : List (List String)) (outcome : Except CompileError Attribute) (query : Query) :
    Prop where
  type_eq : outcome.map (·.type) = type
  route_eq : ∀ leaf, outcome = .ok leaf →
    query.route leaf.path.root ++ leaf.path.segments = route
  within : ∀ path ∈ routesOf query.joins, path ∈ paths
  joins : ∀ leaf, outcome = .ok leaf → ∀ path ∈ paths, path ∈ routesOf query.joins

theorem EndedExactly.of_error {error : CompileError} (type_eq : .error error = type)
    (within : ∀ path ∈ routesOf query.joins, path ∈ paths) :
    EndedExactly route type paths (.error error) query :=
  ⟨type_eq, fun _ found => (nomatch found), within, fun _ found => (nomatch found)⟩

/-- A walk that ends on its route, with the joins of all its paths. -/
theorem EndedExactly.of_iff {outcome : Except CompileError Attribute}
    (type_eq : outcome.map (·.type) = type)
    (route_eq : ∀ leaf, outcome = .ok leaf →
      query.route leaf.path.root ++ leaf.path.segments = route)
    (mem_paths_iff : ∀ path, path ∈ routesOf query.joins ↔ path ∈ paths) :
    EndedExactly route type paths outcome query :=
  ⟨type_eq, route_eq, fun path => (mem_paths_iff path).mp, fun _ _ path => (mem_paths_iff path).mpr⟩

theorem map_entityOutcome (path : AttributePath) (name : String) (target : EntityId) :
    (entityOutcome metadata path name target).map (·.type) = referenceType metadata target := by
  unfold entityOutcome
  cases referenceType metadata target <;> rfl

/-- The join that the next segment needs continues the route. -/
theorem Walk.Sound.route_joinAt (sound : walk.Sound metadata before) {segment : String}
    {kind : PropertyKind} {target : JoinTarget} (plain : Text.Plain (walk.pathTo segment))
    (property : metadata.property walk.owner segment = some kind)
    (leads : kind.joinTarget? = some target) :
    (walk.joinAt segment target).2.route (.join (walk.joinAt segment target).1) =
        walk.passed ++ [segment] ∧
      ∀ path, path ∈ routesOf (walk.joinAt segment target).2.joins ↔
        path ∈ routesOf walk.query.joins ∨ path = walk.passed ++ [segment] := by
  rcases sound.joinAt plain property leads with ⟨joined, -, join, join_eq, parent_eq, path_eq, -⟩
  rcases sound.place with ⟨entity, entity_eq, -⟩
  have segments_eq : Text.segments (Text.dotted (walk.pathTo segment)) =
      walk.embedded ++ [segment] :=
    Text.segments_dotted (by simp [Walk.pathTo]) plain
  have grown := Query.extends_ensureJoin walk.query walk.context
    (Text.dotted (walk.pathTo segment)) target
  constructor
  · rw [joined.route_join join_eq, parent_eq, path_eq, segments_eq, Walk.passed,
      List.append_assoc]
    exact congrArg (· ++ _) (grown.route_eq entity_eq)
  · intro path
    rw [Walk.joinAt, sound.joined.numbered.mem_routesOf_ensureJoin_iff, segments_eq, Walk.passed,
      List.append_assoc]

/-! ### Turns -/

/-- What is exact of a walk, said of the segments that are left. -/
theorem Walk.Exact.ahead (exact : walk.Exact metadata route type paths) {left : List String}
    (pending_eq : walk.pending = left) :
    walk.passed ++ left = route ∧ metadata.selectorType walk.owner left = type ∧
      ∀ path, path ∈ routesOf walk.query.joins ∨
        path ∈ metadata.joinedPaths walk.owner walk.passed left ↔ path ∈ paths := by
  subst pending_eq
  exact ⟨exact.route_eq, exact.type_eq, exact.mem_paths_iff⟩

/-- A walk stops where its selector is stuck. -/
theorem Walk.Exact.stuck (exact : walk.Exact metadata route type paths) {error : CompileError}
    (stuck : metadata.selectorType walk.owner walk.pending = .error error) :
    EndedExactly route type paths (.error error) walk.query :=
  .of_error (stuck.symm.trans exact.type_eq)
    fun path member => (exact.mem_paths_iff path).mp (.inl member)

/-- A walk ends with a last segment that is not joined. -/
theorem Walk.Exact.ended (exact : walk.Exact metadata route type paths) {segment : String}
    (pending_eq : walk.pending = [segment])
    (unjoined : metadata.joinedPaths walk.owner walk.passed [segment] = [])
    {outcome : Except CompileError Attribute}
    (outcome_type : outcome.map (·.type) = metadata.selectorType walk.owner [segment])
    (path_eq : ∀ leaf, outcome = .ok leaf → leaf.path = ⟨walk.context, walk.pathTo segment⟩) :
    EndedExactly route type paths outcome walk.query := by
  rcases exact.ahead pending_eq with ⟨route_eq, type_eq, mem_paths_iff⟩
  simp only [unjoined, List.not_mem_nil, or_false] at mem_paths_iff
  refine .of_iff (outcome_type.trans type_eq) ?_ mem_paths_iff
  intro leaf found
  rw [path_eq leaf found, ← route_eq, Walk.passed, Walk.pathTo, List.append_assoc]

/-- A walk ends with the join of its last segment. -/
theorem Walk.Exact.endedAtJoin (sound : walk.Sound metadata before)
    (exact : walk.Exact metadata route type paths) {segment : String} {kind : PropertyKind}
    {target : JoinTarget} (plain : Text.Plain (walk.pathTo segment))
    (pending_eq : walk.pending = [segment])
    (property : metadata.property walk.owner segment = some kind)
    (leads : kind.joinTarget? = some target)
    (joined : metadata.joinedPaths walk.owner walk.passed [segment] = [walk.passed ++ [segment]])
    {outcome : Except CompileError Attribute}
    (outcome_type : outcome.map (·.type) = metadata.selectorType walk.owner [segment])
    (path_eq : ∀ leaf, outcome = .ok leaf →
      leaf.path = ⟨.join (walk.joinAt segment target).1, []⟩) :
    EndedExactly route type paths outcome (walk.joinAt segment target).2 := by
  rcases sound.route_joinAt plain property leads with ⟨route_join, mem_routes_iff⟩
  rcases exact.ahead pending_eq with ⟨route_eq, type_eq, mem_paths_iff⟩
  simp only [joined, List.mem_singleton] at mem_paths_iff
  refine .of_iff (outcome_type.trans type_eq) ?_
    fun path => (mem_routes_iff path).trans (mem_paths_iff path)
  intro leaf found
  rw [path_eq leaf found, List.append_nil, route_join, route_eq]

/-- A walk that passes a segment stays on its route, if it has the joins of what it has passed. -/
theorem Walk.Exact.pass (exact : walk.Exact metadata route type paths) {segment : String}
    {next : Walk} (pending_eq : walk.pending = segment :: next.pending) (more : next.pending ≠ [])
    (passed_eq : next.passed = walk.passed ++ [segment])
    (same_type : metadata.selectorType walk.owner (segment :: next.pending) =
      metadata.selectorType next.owner next.pending)
    (same_paths : ∀ path, path ∈ routesOf next.query.joins ∨
        path ∈ metadata.joinedPaths next.owner (walk.passed ++ [segment]) next.pending ↔
      path ∈ routesOf walk.query.joins ∨
        path ∈ metadata.joinedPaths walk.owner walk.passed (segment :: next.pending)) :
    next.Exact metadata route type paths := by
  rcases exact.ahead pending_eq with ⟨route_eq, type_eq, mem_paths_iff⟩
  constructor
  · rw [passed_eq, List.append_assoc]
    exact route_eq
  · exact same_type.symm.trans type_eq
  · rw [passed_eq]
    exact fun path => (same_paths path).trans (mem_paths_iff path)
  · exact more

/-- Every turn without an alias keeps a walk on its route. -/
theorem Walk.Exact.move (noAliases : ∀ owner name, mapper owner name = none)
    (sound : walk.Sound metadata before) (exact : walk.Exact metadata route type paths)
    {progress : Progress} (move : Move metadata mapper selector walk progress) :
    progress.Holds (Walk.Exact metadata route type paths) (EndedExactly route type paths) := by
  have pending_eq {left : List String}
      (segments : expand mapper walk.owner walk.pending = left) : walk.pending = left :=
    (expand_of_noAliases noAliases walk.owner walk.pending).symm.trans segments
  cases move with
  | exhausted segments => exact absurd (pending_eq segments) exact.more
  | @unknown segment rest segments property =>
      apply exact.stuck
      rw [pending_eq segments]
      cases rest <;> rw [Metadata.selectorType, property]
  | @value segment rest valueType segments property =>
      cases rest with
      | nil =>
          apply exact.ended (pending_eq segments)
          · rw [Metadata.joinedPaths, property]
          · rw [Metadata.selectorType, property]
            rfl
          · rintro leaf ⟨⟩
            rfl
      | cons next rest =>
          apply exact.stuck
          rw [pending_eq segments, Metadata.selectorType, property]
  | composite segments property =>
      apply exact.ended (pending_eq segments)
      · rw [Metadata.joinedPaths, property]
        rfl
      · rw [Metadata.selectorType, property]
        rfl
      · rintro leaf ⟨⟩
        rfl
  | reference segments property =>
      apply exact.ended (pending_eq segments)
      · rw [Metadata.joinedPaths, property]
        rfl
      · rw [map_entityOutcome, Metadata.selectorType, property]
      · exact fun leaf found => (eq_of_entityOutcome_eq_ok found).1
  | enter segments more property =>
      apply exact.pass (pending_eq segments) more
      · exact (List.append_assoc ..).symm
      · exact Metadata.selectorType_embedded property more
      · intro path
        rw [Metadata.joinedPaths, property]
  | whole segments property =>
      have plain := (sound.plain_pathTo segments).1
      apply exact.endedAtJoin sound plain (pending_eq segments) property rfl
      · rw [Metadata.joinedPaths, property]
        rfl
      · rw [map_entityOutcome, Metadata.selectorType, property]
      · exact fun leaf found => (eq_of_entityOutcome_eq_ok found).1
  | follow segments more property =>
      have plain := (sound.plain_pathTo segments).1
      rcases sound.route_joinAt plain property rfl with ⟨route_join, mem_routes_iff⟩
      apply exact.pass (pending_eq segments) more
      · exact (List.append_nil _).trans route_join
      · exact Metadata.selectorType_association property more
      · intro path
        rw [mem_routes_iff, Metadata.joinedPaths_association property more, List.mem_cons, or_assoc]
  | behind segments property =>
      apply exact.stuck
      rw [pending_eq segments, Metadata.selectorType, property]
  | element segments property =>
      have plain := (sound.plain_pathTo segments).1
      apply exact.endedAtJoin sound plain (pending_eq segments) property rfl
      · rw [Metadata.joinedPaths, property]
      · rw [Metadata.selectorType, property]
        rfl
      · rintro leaf ⟨⟩
        rfl

theorem run_exact (noAliases : ∀ owner name, mapper owner name = none)
    (sound : walk.Sound metadata before) (exact : walk.Exact metadata route type paths)
    (steps : Nat) :
    (run metadata mapper selector steps walk).Holds
      (fun walk => ∀ path ∈ routesOf walk.query.joins, path ∈ paths)
      (EndedExactly route type paths) := by
  have keeps : ∀ (walk : Walk) (progress : Progress),
      walk.Sound metadata before ∧ walk.Exact metadata route type paths →
        Move metadata mapper selector walk progress →
          progress.Holds
            (fun walk => walk.Sound metadata before ∧ walk.Exact metadata route type paths)
            (fun outcome last => Ended metadata before outcome last ∧
              EndedExactly route type paths outcome last) := by
    rintro walk progress ⟨sound, exact⟩ move
    exact (sound.move move).and (exact.move noAliases sound move)
  exact (run_holds keeps steps ⟨sound, exact⟩).imp
    (fun _ both path member => (both.2.mem_paths_iff path).mp (.inl member))
    fun _ _ ended => ended.2

/-- Without aliases a selector whose first segment is not the alias of a join is walked as
metadata says: the joins in front of its attribute and the segments of the attribute spell it
out, and the joins of the query are those that were there and those of the selector. -/
theorem resolve_exact (noAliases : ∀ owner name, mapper owner name = none)
    (joined : query.Joined metadata) {origin : Origin}
    (entity_eq : query.entityOf origin.context = some origin.entity) (selector : String)
    (unlabeled : ∀ label ∈ (Text.segments selector).head?, origin.context = .root →
      query.joinLabeled? label = none) {paths : List (List String)}
    (paths_eq : paths = routesOf query.joins ++ metadata.joinedPaths origin.entity
      (query.route origin.context) (Text.segments selector)) (steps : Nat) :
    (resolve metadata mapper steps query origin selector).Holds
      (fun walk => ∀ path ∈ routesOf walk.query.joins, path ∈ paths)
      (EndedExactly (query.route origin.context ++ Text.segments selector)
        (metadata.selectorType origin.entity (Text.segments selector)) paths) := by
  let walk : Walk :=
    { context := origin.context, owner := origin.entity, embedded := [],
      pending := Text.segments selector, query }
  have start_eq : start metadata query origin selector = .walking walk := by
    rcases start_cases metadata query origin selector with
      ⟨label, rest, join, context_eq, segments, labeled, -⟩ | start_eq
    · rw [unlabeled label (by rw [segments]; rfl) context_eq] at labeled
      cases labeled
    · exact start_eq
  have sound := start_sound joined entity_eq selector
  rw [start_eq] at sound
  have exact : walk.Exact metadata (query.route origin.context ++ Text.segments selector)
      (metadata.selectorType origin.entity (Text.segments selector)) paths := by
    constructor
    · simp [walk, Walk.passed]
    · rfl
    · simp [walk, Walk.passed, paths_eq]
    · exact Text.segments_ne_nil selector
  rw [resolve, start_eq]
  exact run_exact noAliases sound exact _

end Selector

end FilterQuery
