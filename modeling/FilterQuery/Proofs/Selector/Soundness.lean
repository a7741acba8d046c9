import FilterQuery.Proofs.Query.Joined
import FilterQuery.Proofs.Selector.Moves

/-!
# Walks stay on metadata

Whatever aliases there are, a walk only reaches contexts of entities that its query
ranges over, and only passes composites there.  So every join that it makes follows a
property of the entity of its parent, and an attribute that it ends at is a field of an
entity, an entity that stands for its identifier, or an element of a collection.
-/

namespace FilterQuery

/-! ## Segments -/

/-- Segments without dots in them. -/
def Text.Plain (segments : List String) : Prop :=
  ∀ segment ∈ segments, '.' ∉ segment.toList

theorem Text.plain_nil : Plain [] :=
  fun _ member => nomatch member

theorem Text.plain_segments (path : String) : Plain (segments path) :=
  fun _ member => dot_not_mem_of_mem_segments member

theorem Text.Plain.append {path more : List String} (plain : Plain path) (other : Plain more) :
    Plain (path ++ more) :=
  List.forall_mem_append.mpr ⟨plain, other⟩

theorem Text.Plain.of_append_left {path more : List String} (plain : Plain (path ++ more)) :
    Plain path :=
  (List.forall_mem_append.mp plain).1

theorem Text.Plain.of_append_right {path more : List String} (plain : Plain (path ++ more)) :
    Plain more :=
  (List.forall_mem_append.mp plain).2

theorem Text.Plain.of_cons {segment : String} {rest : List String}
    (plain : Plain (segment :: rest)) : Plain rest :=
  (List.forall_mem_cons.mp plain).2

namespace Selector

/-- An expansion is what is left, or the segments of an alias in front of the end of it. -/
theorem expand_cases (mapper : Mapper) (owner : EntityId) (pending : List String) :
    expand mapper owner pending = pending ∨
      ∃ length path, length < pending.length ∧
        mapper owner (Text.dotted (pending.take (length + 1))) = some path ∧
        expand mapper owner pending = Text.segments path ++ pending.drop (length + 1) := by
  suffices within : ∀ bound, bound ≤ pending.length →
      expandWithin mapper owner pending bound = pending ∨
        ∃ length path, length < pending.length ∧
          mapper owner (Text.dotted (pending.take (length + 1))) = some path ∧
          expandWithin mapper owner pending bound =
            Text.segments path ++ pending.drop (length + 1) from
    within pending.length (Nat.le_refl _)
  intro bound
  induction bound with
  | zero => exact fun _ => .inl rfl
  | succ bound ih =>
      intro inside
      rw [expandWithin]
      split
      · rename_i path mapped
        exact .inr ⟨bound, path, inside, mapped, rfl⟩
      · exact ih (by omega)

theorem plain_expand {mapper : Mapper} {owner : EntityId} {pending : List String}
    (plain : Text.Plain pending) : Text.Plain (expand mapper owner pending) := by
  rcases expand_cases mapper owner pending with unchanged | ⟨length, path, -, -, expanded⟩
  · rwa [unchanged]
  · rw [expanded]
    rw [← List.take_append_drop (length + 1) pending] at plain
    exact (Text.plain_segments path).append plain.of_append_right

end Selector

/-! ## Attributes -/

/-- The type of a property at the end of a selector, unless the property has to be joined. -/
def Metadata.leafType? (metadata : Metadata) : PropertyKind → Option AttributeType
  | .attribute type => some type
  | .embedded inner => some (.object (metadata.displayName inner) false)
  | .association target .single => (Selector.referenceType metadata target).toOption
  | .association _ .collection => none
  | .elements _ => none

/-- The attributes that a query has, with their types. -/
inductive Query.Located (metadata : Metadata) (query : Query) :
    AttributePath → AttributeType → Prop
  | field {context : Context} {segments : List String} {entity : EntityId} {kind : PropertyKind}
      {type : AttributeType} (entity_eq : query.entityOf context = some entity)
      (kind_eq : metadata.propertyAt? entity segments = some kind)
      (type_eq : metadata.leafType? kind = some type) :
      Located metadata query ⟨context, segments⟩ type
  | whole {id : JoinId} {target : EntityId} {type : AttributeType}
      (entity_eq : query.entityOf (.join id) = some target)
      (type_eq : Selector.referenceType metadata target = .ok type) :
      Located metadata query ⟨.join id, []⟩ type
  | element {id : JoinId} {join : Join} {type : AttributeType}
      (join_eq : query.joins[id]? = some join) (target_eq : join.target = .elements type) :
      Located metadata query ⟨.join id, []⟩ type

/-- More joins leave the attributes of a query as they were. -/
theorem Query.Located.extend {metadata : Metadata} {query next : Query} {path : AttributePath}
    {type : AttributeType} (located : query.Located metadata path type)
    (grows : query.Extends next) : next.Located metadata path type := by
  cases located with
  | field entity_eq kind_eq type_eq => exact .field (grows.entityOf entity_eq) kind_eq type_eq
  | whole entity_eq type_eq => exact .whole (grows.entityOf entity_eq) type_eq
  | element join_eq target_eq => exact .element (grows.getElem?_joins join_eq) target_eq

namespace Selector

variable {metadata : Metadata} {mapper : Mapper} {selector : String} {before query : Query}
  {walk : Walk}

theorem eq_of_entityOutcome_eq_ok {path : AttributePath} {name : String} {target : EntityId}
    {leaf : Attribute} (h : entityOutcome metadata path name target = .ok leaf) :
    leaf.path = path ∧ referenceType metadata target = .ok leaf.type := by
  unfold entityOutcome at h
  cases type_eq : referenceType metadata target with
  | error error => simp [type_eq, Except.map] at h
  | ok type =>
      rw [type_eq] at h
      cases h
      exact ⟨rfl, rfl⟩

theorem eq_of_valueOutcome_eq_ok {path : AttributePath} {name : String} {type : AttributeType}
    {rest : List String} {leaf : Attribute}
    (h : valueOutcome path name type rest = .ok leaf) :
    rest = [] ∧ leaf.path = path ∧ leaf.type = type := by
  cases rest with
  | nil =>
      cases h
      exact ⟨rfl, rfl, rfl⟩
  | cons next rest => cases h

/-- A walk that has come to an entity of its query, or to a composite inside it, on a query
that has grown from another one. -/
structure Walk.Sound (metadata : Metadata) (before : Query) (walk : Walk) : Prop where
  joined : walk.query.Joined metadata
  grown : before.Extends walk.query
  place : ∃ entity, walk.query.entityOf walk.context = some entity ∧
    metadata.compositeAt? entity walk.embedded = some walk.owner
  plain_embedded : Text.Plain walk.embedded
  plain_pending : Text.Plain walk.pending

/-- The end of a walk: a query that has grown from another one and, after a success, has the
attribute. -/
structure Ended (metadata : Metadata) (before : Query) (outcome : Except CompileError Attribute)
    (query : Query) : Prop where
  joined : query.Joined metadata
  grown : before.Extends query
  located : ∀ leaf, outcome = .ok leaf →
    query.Located metadata leaf.path leaf.type

theorem Ended.of_error (joined : query.Joined metadata) (grown : before.Extends query)
    (error : CompileError) : Ended metadata before (.error error) query :=
  ⟨joined, grown, fun _ found => nomatch found⟩

/-! ## One step -/

theorem Walk.Sound.plain_pathTo (sound : walk.Sound metadata before) {segment : String}
    {rest : List String} (segments : expand mapper walk.owner walk.pending = segment :: rest) :
    Text.Plain (walk.pathTo segment) ∧ Text.Plain rest := by
  have plain : Text.Plain ([segment] ++ rest) := by
    rw [List.singleton_append, ← segments]
    exact plain_expand sound.plain_pending
  exact ⟨sound.plain_embedded.append plain.of_append_left, plain.of_append_right⟩

/-- The property of the next segment, seen from the entity that the walk is in. -/
theorem Walk.Sound.exists_propertyAt? (sound : walk.Sound metadata before) {segment : String}
    {kind : PropertyKind} (property : metadata.property walk.owner segment = some kind) :
    ∃ entity, walk.query.entityOf walk.context = some entity ∧
      metadata.propertyAt? entity (walk.pathTo segment) = some kind := by
  rcases sound.place with ⟨entity, entity_eq, owner_eq⟩
  refine ⟨entity, entity_eq, ?_⟩
  rw [Walk.pathTo, Metadata.propertyAt?_append_singleton, owner_eq, Option.bind_some, property]

/-- The join that the next segment needs is made along metadata. -/
theorem Walk.Sound.joinAt (sound : walk.Sound metadata before) {segment : String}
    {kind : PropertyKind} {target : JoinTarget} (plain : Text.Plain (walk.pathTo segment))
    (property : metadata.property walk.owner segment = some kind)
    (leads : kind.joinTarget? = some target) :
    (walk.joinAt segment target).2.Joined metadata ∧
      before.Extends (walk.joinAt segment target).2 ∧
      ∃ join, (walk.joinAt segment target).2.joins[(walk.joinAt segment target).1]? = some join ∧
        join.parent = walk.context ∧ join.path = Text.dotted (walk.pathTo segment) ∧
        join.target = target := by
  rcases sound.exists_propertyAt? property with ⟨entity, entity_eq, kind_eq⟩
  have along : Query.Leads metadata entity (Text.dotted (walk.pathTo segment)) target := by
    refine ⟨kind, ?_, leads⟩
    rw [Text.segments_dotted (by simp [Walk.pathTo]) plain]
    exact kind_eq
  exact ⟨sound.joined.ensureJoin entity_eq along,
    sound.grown.trans (Query.extends_ensureJoin _ _ _ _),
    sound.joined.getElem?_ensureJoin entity_eq along⟩

/-- Every turn keeps a walk on metadata. -/
theorem Walk.Sound.move (sound : walk.Sound metadata before) {progress : Progress}
    (move : Move metadata mapper selector walk progress) :
    progress.Holds (Walk.Sound metadata before) (Ended metadata before) := by
  have here {leaf : Attribute} {kind : PropertyKind} {segment : String}
      (property : metadata.property walk.owner segment = some kind)
      (path_eq : leaf.path = ⟨walk.context, walk.pathTo segment⟩)
      (type_eq : metadata.leafType? kind = some leaf.type) :
      walk.query.Located metadata leaf.path leaf.type := by
    rcases sound.exists_propertyAt? property with ⟨entity, entity_eq, kind_eq⟩
    rw [path_eq]
    exact .field entity_eq kind_eq type_eq
  cases move with
  | exhausted _ => exact .of_error sound.joined sound.grown _
  | unknown _ _ => exact .of_error sound.joined sound.grown _
  | behind _ _ => exact .of_error sound.joined sound.grown _
  | value segments property =>
      refine ⟨sound.joined, sound.grown, ?_⟩
      intro leaf found
      rcases eq_of_valueOutcome_eq_ok found with ⟨-, path_eq, type_eq⟩
      exact here property path_eq (by rw [type_eq]; rfl)
  | composite segments property =>
      refine ⟨sound.joined, sound.grown, ?_⟩
      intro leaf found
      cases found
      exact here property rfl rfl
  | reference segments property =>
      refine ⟨sound.joined, sound.grown, ?_⟩
      intro leaf found
      rcases eq_of_entityOutcome_eq_ok found with ⟨path_eq, type_eq⟩
      exact here property path_eq (by rw [Metadata.leafType?, type_eq]; rfl)
  | enter segments more property =>
      rcases sound.plain_pathTo segments with ⟨plain_path, plain_rest⟩
      rcases sound.place with ⟨entity, entity_eq, owner_eq⟩
      refine ⟨sound.joined, sound.grown, ⟨entity, entity_eq, ?_⟩, plain_path, plain_rest⟩
      simp [Walk.pathTo, Metadata.compositeAt?_append, owner_eq, Metadata.compositeAt?, property]
  | whole segments property =>
      obtain ⟨joined, grown, join, join_eq, -, -, target_eq⟩ :=
        sound.joinAt (sound.plain_pathTo segments).1 property rfl
      refine ⟨joined, grown, ?_⟩
      intro leaf found
      rcases eq_of_entityOutcome_eq_ok found with ⟨path_eq, type_eq⟩
      rw [path_eq]
      exact .whole (Query.entityOf_join_eq_some_iff.mpr ⟨join, join_eq, target_eq⟩) type_eq
  | follow segments more property =>
      rcases sound.plain_pathTo segments with ⟨plain_path, plain_rest⟩
      obtain ⟨joined, grown, join, join_eq, -, -, target_eq⟩ :=
        sound.joinAt plain_path property rfl
      exact ⟨joined, grown,
        ⟨_, Query.entityOf_join_eq_some_iff.mpr ⟨join, join_eq, target_eq⟩, rfl⟩,
        Text.plain_nil, plain_rest⟩
  | element segments property =>
      obtain ⟨joined, grown, join, join_eq, -, -, target_eq⟩ :=
        sound.joinAt (sound.plain_pathTo segments).1 property rfl
      refine ⟨joined, grown, ?_⟩
      intro leaf found
      cases found
      exact .element join_eq target_eq

/-! ## Whole walks -/

/-- A selector starts at a join whose alias is its first segment, or else at its origin. -/
theorem start_cases (metadata : Metadata) (query : Query) (origin : Origin) (selector : String) :
    (∃ label rest join, origin.context = .root ∧ Text.segments selector = label :: rest ∧
      query.joinLabeled? label = some join ∧
      start metadata query origin selector = startAtJoin metadata query join selector rest) ∨
    start metadata query origin selector =
      .walking
        { context := origin.context, owner := origin.entity, embedded := [],
          pending := Text.segments selector, query } := by
  obtain ⟨label, rest, segments⟩ :=
    List.exists_cons_of_ne_nil (Text.segments_ne_nil selector)
  unfold start
  rw [segments]
  cases context_eq : origin.context with
  | join id => exact .inr rfl
  | root =>
      cases labeled : query.joinLabeled? label with
      | none => right; simp [labeled]
      | some join =>
          exact .inl ⟨label, rest, join, rfl, rfl, labeled, by simp [labeled]⟩

/-- A walk starts on metadata. -/
theorem start_sound (joined : query.Joined metadata) {origin : Origin}
    (entity_eq : query.entityOf origin.context = some origin.entity) (selector : String) :
    (start metadata query origin selector).Holds (Walk.Sound metadata query)
      (Ended metadata query) := by
  have plain := Text.plain_segments selector
  rcases start_cases metadata query origin selector with
    ⟨label, rest, join, -, segments, labeled, start_eq⟩ | start_eq
  · rw [start_eq]
    rw [segments, ← List.singleton_append] at plain
    have join_eq := joined.numbered.getElem?_of_joinLabeled? labeled
    unfold startAtJoin
    cases target_eq : join.target with
    | elements type =>
        refine ⟨joined, .refl query, ?_⟩
        intro leaf ended
        rcases eq_of_valueOutcome_eq_ok ended with ⟨-, path_eq, type_eq⟩
        rw [path_eq, type_eq]
        exact .element join_eq target_eq
    | entity target =>
        have here := Query.entityOf_join_eq_some_iff.mpr ⟨join, join_eq, target_eq⟩
        cases rest with
        | nil =>
            refine ⟨joined, .refl query, ?_⟩
            intro leaf ended
            rcases eq_of_entityOutcome_eq_ok ended with ⟨path_eq, type_eq⟩
            rw [path_eq]
            exact .whole here type_eq
        | cons next rest =>
            exact ⟨joined, .refl query, ⟨target, here, rfl⟩, Text.plain_nil,
              plain.of_append_right⟩
  · rw [start_eq]
    exact ⟨joined, .refl query, ⟨origin.entity, entity_eq, rfl⟩, Text.plain_nil, plain⟩

/-- A walk from a context of a query, for any number of steps, keeps the query joined along
metadata, only adds joins to it, and ends at one of its attributes. -/
theorem resolve_sound (joined : query.Joined metadata) {origin : Origin}
    (entity_eq : query.entityOf origin.context = some origin.entity) (mapper : Mapper)
    (steps : Nat) (selector : String) :
    (resolve metadata mapper steps query origin selector).Holds (Walk.Sound metadata query)
      (Ended metadata query) := by
  have started := start_sound joined entity_eq selector
  unfold resolve
  split
  · rename_i walk start_eq
    rw [start_eq] at started
    exact run_holds (fun _ _ sound move => sound.move move) _ started
  · rename_i outcome query start_eq
    rw [start_eq] at started
    exact started

end Selector

end FilterQuery
