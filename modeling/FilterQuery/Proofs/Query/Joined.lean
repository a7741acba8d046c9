import FilterQuery.Proofs.Places

/-!
# The joins of a query

The joins of a query are numbered if its three views of them agree (the place of a join in
the list, its number, and the index from parents and paths) and parents come before their
children.  A query is joined along metadata if, besides, every join follows a property of an
entity that an earlier join, or the root, ranges over.  Both ways of making joins keep this,
and neither changes what earlier joins are.
-/

namespace FilterQuery.Query

/-- A path that leads from an entity through composites to a property that can be joined. -/
def Leads (metadata : Metadata) (owner : EntityId) (path : String) (target : JoinTarget) : Prop :=
  ∃ kind, metadata.propertyAt? owner (Text.segments path) = some kind ∧
    kind.joinTarget? = some target

/-- The joins of a query are found at their numbers and through the index, and come after their
parents. -/
structure Numbered (query : Query) : Prop where
  id_eq : ∀ {i : Nat} {join : Join}, query.joins[i]? = some join → join.id = i
  get?_index_iff : ∀ {parent : Context} {path : String} {id : JoinId},
    query.index.get? (parent, path) = some id ↔
      ∃ join, query.joins[id]? = some join ∧ join.parent = parent ∧ join.path = path
  parent_lt : ∀ {i : Nat} {join : Join} {id : JoinId}, query.joins[i]? = some join →
    join.parent = .join id → id < i

/-- Whether a query has a context: the root, or one of its joins. -/
def Has (query : Query) : Context → Prop
  | .root => True
  | .join id => id < query.joins.length

/-- The joins of a query are numbered, indexed, and made along metadata. -/
structure Joined (metadata : Metadata) (query : Query) : Prop where
  id_eq : ∀ {i : Nat} {join : Join}, query.joins[i]? = some join → join.id = i
  get?_index_iff : ∀ {parent : Context} {path : String} {id : JoinId},
    query.index.get? (parent, path) = some id ↔
      ∃ join, query.joins[id]? = some join ∧ join.parent = parent ∧ join.path = path
  parent_lt : ∀ {i : Nat} {join : Join} {id : JoinId}, query.joins[i]? = some join →
    join.parent = .join id → id < i
  leads : ∀ {i : Nat} {join : Join}, query.joins[i]? = some join →
    ∃ owner, query.entityOf join.parent = some owner ∧
      Leads metadata owner join.path join.target

variable {metadata : Metadata} {query next : Query}

/-! ## Contexts -/

theorem entityOf_join_eq_some_iff {id : JoinId} {entity : EntityId} :
    query.entityOf (.join id) = some entity ↔
      ∃ join, query.joins[id]? = some join ∧ join.target = .entity entity := by
  simp only [entityOf, join?, Option.bind_eq_some_iff]
  constructor
  · rintro ⟨join, hjoin, htarget⟩
    cases target_eq : join.target with
    | entity target => simp_all [JoinTarget.entity?]
    | elements type => simp [target_eq, JoinTarget.entity?] at htarget
  · rintro ⟨join, hjoin, htarget⟩
    exact ⟨join, hjoin, by simp [htarget, JoinTarget.entity?]⟩

/-- An entity belongs to a context that the query has. -/
theorem has_of_entityOf_eq_some {context : Context} {entity : EntityId}
    (h : query.entityOf context = some entity) : query.Has context := by
  cases context with
  | root => trivial
  | join id =>
      rcases entityOf_join_eq_some_iff.mp h with ⟨join, hjoin, -⟩
      exact (List.getElem?_eq_some_iff.mp hjoin).1

theorem Joined.numbered (joined : query.Joined metadata) : query.Numbered :=
  ⟨joined.id_eq, joined.get?_index_iff, joined.parent_lt⟩

/-- Joins are found by their parents and paths, so these tell joins apart. -/
theorem Numbered.eq_of_key_eq (numbered : query.Numbered) {i j : Nat} {first second : Join}
    (hfirst : query.joins[i]? = some first) (hsecond : query.joins[j]? = some second)
    (parent_eq : first.parent = second.parent) (path_eq : first.path = second.path) : i = j := by
  have found := numbered.get?_index_iff.mpr ⟨first, hfirst, parent_eq, path_eq⟩
  have foundAgain := numbered.get?_index_iff.mpr ⟨second, hsecond, rfl, rfl⟩
  exact Option.some.inj (found.symm.trans foundAgain)

/-- A join that is found by its alias is found by its number. -/
theorem Numbered.getElem?_of_joinLabeled? (numbered : query.Numbered) {label : String}
    {join : Join} (h : query.joinLabeled? label = some join) :
    query.joins[join.id]? = some join := by
  rcases List.mem_iff_getElem?.mp (List.mem_of_find?_eq_some h) with ⟨i, join_eq⟩
  rw [numbered.id_eq join_eq]
  exact join_eq

/-- A query without joins is joined along any metadata. -/
theorem joined_of_joins_eq_nil (noJoins : query.joins = []) (noIndex : query.index = []) :
    query.Joined metadata where
  id_eq := by simp [noJoins]
  get?_index_iff := by simp [noJoins, noIndex]
  parent_lt := by simp [noJoins]
  leads := by simp [noJoins]

/-! ## Making a join -/

/-- A query with more joins than another, all of them plain ones, and otherwise equal. -/
structure Extends (query next : Query) : Prop where
  root_eq : next.root = query.root
  projection_eq : next.projection = query.projection
  distinct_eq : next.distinct = query.distinct
  filter_eq : next.filter = query.filter
  joins_eq : ∃ added, next.joins = query.joins ++ added ∧
    ∀ join ∈ added, join.kind = .inner ∧ join.label = none

theorem Extends.refl (query : Query) : query.Extends query :=
  ⟨rfl, rfl, rfl, rfl, [], by simp⟩

theorem Extends.trans {last : Query} (first : query.Extends next) (second : next.Extends last) :
    query.Extends last := by
  rcases first.joins_eq with ⟨added, hadded, plain⟩
  rcases second.joins_eq with ⟨more, hmore, morePlain⟩
  refine ⟨second.root_eq.trans first.root_eq, second.projection_eq.trans first.projection_eq,
    second.distinct_eq.trans first.distinct_eq, second.filter_eq.trans first.filter_eq,
    added ++ more, ?_, ?_⟩
  · rw [hmore, hadded, List.append_assoc]
  · intro join member
    rcases List.mem_append.mp member with member | member
    · exact plain join member
    · exact morePlain join member

/-- A query whose joins are those of another one and further ones without aliases. -/
def Continues (query next : Query) : Prop :=
  ∃ added, next.joins = query.joins ++ added ∧ ∀ join ∈ added, join.label = none

theorem Extends.continues (grows : query.Extends next) : query.Continues next := by
  rcases grows.joins_eq with ⟨added, hadded, plain⟩
  exact ⟨added, hadded, fun join member => (plain join member).2⟩

theorem Continues.has (continues : query.Continues next) {context : Context}
    (has : query.Has context) : next.Has context := by
  rcases continues with ⟨added, hadded, -⟩
  cases context with
  | root => trivial
  | join id =>
      rw [Has, hadded, List.length_append]
      exact Nat.lt_add_right added.length has

/-- Joins without aliases are not found by an alias. -/
theorem Continues.joinLabeled?_eq (continues : query.Continues next) (label : String) :
    next.joinLabeled? label = query.joinLabeled? label := by
  rcases continues with ⟨added, hadded, unlabeled⟩
  have absent : added.find? (fun join => join.label = some label) = none := by
    rw [List.find?_eq_none]
    intro join member
    simp [unlabeled join member]
  rw [joinLabeled?, hadded, List.find?_append, absent, Option.or_none, joinLabeled?]

theorem Extends.getElem?_joins (grows : query.Extends next) {i : Nat} {join : Join}
    (h : query.joins[i]? = some join) : next.joins[i]? = some join := by
  rcases grows.joins_eq with ⟨added, hadded, -⟩
  rcases List.getElem?_eq_some_iff.mp h with ⟨inside, -⟩
  rw [hadded, List.getElem?_append_left inside, h]

/-- Contexts keep their entities. -/
theorem Extends.entityOf (grows : query.Extends next) {context : Context} {entity : EntityId}
    (h : query.entityOf context = some entity) : next.entityOf context = some entity := by
  cases context with
  | root => simpa [grows.root_eq] using h
  | join id =>
      rcases entityOf_join_eq_some_iff.mp h with ⟨join, hjoin, target_eq⟩
      exact entityOf_join_eq_some_iff.mpr ⟨join, grows.getElem?_joins hjoin, target_eq⟩

/-- Making a join changes nothing that was there. -/
theorem extends_ensureJoin (query : Query) (parent : Context) (path : String)
    (target : JoinTarget) : query.Extends (query.ensureJoin parent path target).2 := by
  cases h : query.index.get? (parent, path) with
  | some id => rw [ensureJoin_of_get?_eq_some h]; exact .refl query
  | none =>
      exact ⟨by simp [ensureJoin, h], by simp [ensureJoin, h], by simp [ensureJoin, h],
        by simp [ensureJoin, h], [{ id := query.joins.length, parent, path, target }],
        by simp [ensureJoin, h], by simp⟩

/-- The join of a parent and a path is there once it has been made. -/
theorem Joined.getElem?_ensureJoin (joined : query.Joined metadata) {owner : EntityId}
    {parent : Context} {path : String} {target : JoinTarget}
    (hparent : query.entityOf parent = some owner) (hleads : Leads metadata owner path target) :
    ∃ join, (query.ensureJoin parent path target).2.joins[
        (query.ensureJoin parent path target).1]? = some join ∧
      join.parent = parent ∧ join.path = path ∧ join.target = target := by
  cases h : query.index.get? (parent, path) with
  | some id =>
      rw [ensureJoin_of_get?_eq_some h]
      rcases joined.get?_index_iff.mp h with ⟨join, hjoin, rfl, rfl⟩
      refine ⟨join, hjoin, rfl, rfl, ?_⟩
      -- the parent and the path determine the property that is joined
      rcases joined.leads hjoin with ⟨owner', howner, kind, hkind, htarget⟩
      rcases hleads with ⟨kind', hkind', htarget'⟩
      obtain rfl : owner' = owner := Option.some.inj (howner.symm.trans hparent)
      obtain rfl : kind' = kind := Option.some.inj (hkind'.symm.trans hkind)
      exact Option.some.inj (htarget.symm.trans htarget')
  | none => simp [ensureJoin, h]

/-- The joins after a new one has been made: the old ones, and the new one at the end. -/
theorem getElem?_joins_ensureJoin_of_none {parent : Context} {path : String}
    (h : query.index.get? (parent, path) = none) (target : JoinTarget) (i : Nat) (join : Join) :
    (query.ensureJoin parent path target).2.joins[i]? = some join ↔
      query.joins[i]? = some join ∨
        i = query.joins.length ∧ { id := query.joins.length, parent, path, target } = join := by
  have joins_eq : (query.ensureJoin parent path target).2.joins =
      query.joins ++ [{ id := query.joins.length, parent, path, target }] := by
    simp [Query.ensureJoin, h]
  rw [joins_eq]
  rcases Nat.lt_trichotomy i query.joins.length with inside | rfl | outside
  · simp [List.getElem?_append_left inside, Nat.ne_of_lt inside]
  · simp
  · rw [List.getElem?_eq_none (by simp; omega), List.getElem?_eq_none (by omega)]
    simp [Nat.ne_of_gt outside]

/-- Making a join below a context that a query has keeps its joins numbered. -/
theorem Numbered.ensureJoin (numbered : query.Numbered) {parent : Context}
    (has : query.Has parent) (path : String) (target : JoinTarget) :
    (query.ensureJoin parent path target).2.Numbered := by
  have grows := extends_ensureJoin query parent path target
  cases h : query.index.get? (parent, path) with
  | some id => rw [ensureJoin_of_get?_eq_some h]; exact numbered
  | none =>
      have joins_iff := getElem?_joins_ensureJoin_of_none h target
      constructor
      · intro i join hjoin
        rcases (joins_iff _ _).mp hjoin with old | ⟨rfl, rfl⟩
        · exact numbered.id_eq old
        · rfl
      · intro parent' path' id
        have index_eq : (query.ensureJoin parent path target).2.index =
            query.index.put (parent, path) query.joins.length := by
          simp [Query.ensureJoin, h]
        rw [index_eq, Keyed.get?_put]
        split
        · rename_i key_eq
          rcases Prod.mk.inj key_eq with ⟨rfl, rfl⟩
          constructor
          · rintro ⟨⟩
            exact ⟨_, (joins_iff _ _).mpr (.inr ⟨rfl, rfl⟩), rfl, rfl⟩
          · rintro ⟨join, hjoin, parent_eq, path_eq⟩
            rcases (joins_iff _ _).mp hjoin with old | ⟨rfl, -⟩
            · have found := numbered.get?_index_iff.mpr ⟨join, old, parent_eq, path_eq⟩
              simp [h] at found
            · rfl
        · rename_i key_ne
          constructor
          · intro found
            rcases numbered.get?_index_iff.mp found with ⟨join, hjoin, key⟩
            exact ⟨join, grows.getElem?_joins hjoin, key⟩
          · rintro ⟨join, hjoin, rfl, rfl⟩
            rcases (joins_iff _ _).mp hjoin with old | ⟨-, rfl⟩
            · exact numbered.get?_index_iff.mpr ⟨join, old, rfl, rfl⟩
            · exact absurd rfl key_ne
      · intro i join id hjoin parent_eq
        rcases (joins_iff _ _).mp hjoin with old | ⟨rfl, rfl⟩
        · exact numbered.parent_lt old parent_eq
        · subst parent_eq
          exact has

/-- The join of a parent and a path is one of the joins once it has been made. -/
theorem Numbered.has_ensureJoin (numbered : query.Numbered) (parent : Context) (path : String)
    (target : JoinTarget) :
    (query.ensureJoin parent path target).2.Has
      (.join (query.ensureJoin parent path target).1) := by
  cases h : query.index.get? (parent, path) with
  | some id =>
      rw [ensureJoin_of_get?_eq_some h]
      rcases numbered.get?_index_iff.mp h with ⟨join, hjoin, -⟩
      exact (List.getElem?_eq_some_iff.mp hjoin).1
  | none => simp [Has, Query.ensureJoin, h]

/-- Making a join along metadata keeps a query joined along it. -/
theorem Joined.ensureJoin (joined : query.Joined metadata) {owner : EntityId}
    {parent : Context} {path : String} {target : JoinTarget}
    (hparent : query.entityOf parent = some owner) (hleads : Leads metadata owner path target) :
    (query.ensureJoin parent path target).2.Joined metadata := by
  have grows := extends_ensureJoin query parent path target
  have numbered := joined.numbered.ensureJoin (has_of_entityOf_eq_some hparent) path target
  cases h : query.index.get? (parent, path) with
  | some id => rw [ensureJoin_of_get?_eq_some h]; exact joined
  | none =>
      refine ⟨numbered.id_eq, numbered.get?_index_iff, numbered.parent_lt, ?_⟩
      intro i join hjoin
      rcases (getElem?_joins_ensureJoin_of_none h target _ _).mp hjoin with old | ⟨rfl, rfl⟩
      · rcases joined.leads old with ⟨owner', howner, leads⟩
        exact ⟨owner', grows.entityOf howner, leads⟩
      · exact ⟨owner, grows.entityOf hparent, hleads⟩

/-! ## Joins made ahead of a compile -/

/-- A join made ahead of a compile follows an association of the entity of its parent. -/
theorem exists_of_join_eq_ok {parent : Context} {association : String} {kind : JoinKind}
    {label : Option String} {id : JoinId}
    (h : query.join metadata parent association kind label = .ok (id, next)) :
    ∃ owner target, query.entityOf parent = some owner ∧
      Leads metadata owner association target ∧
      id = (query.ensureJoin parent association target).1 ∧
      next = (query.ensureJoin parent association target).2.establish id kind label := by
  unfold Query.join at h
  cases hparent : query.entityOf parent with
  | none => simp [hparent] at h
  | some owner =>
      rw [hparent] at h
      cases htarget : associationTarget metadata owner (Text.segments association) with
      | error error => simp [htarget, bind, Except.bind] at h
      | ok found =>
          cases found with
          | none => simp [htarget, bind, Except.bind] at h
          | some target =>
              simp only [htarget, bind, Except.bind, Except.ok.injEq, Prod.mk.injEq] at h
              rcases h with ⟨rfl, rfl⟩
              exact ⟨owner, target, rfl,
                metadata.associationTarget_eq_ok_some_iff.mp htarget, rfl, rfl⟩

/-- What a join follows is not changed by giving it its kind and its alias. -/
theorem getElem?_joins_establish (id : JoinId) (kind : JoinKind) (label : Option String)
    {i : Nat} {join : Join} (h : (query.establish id kind label).joins[i]? = some join) :
    ∃ before, query.joins[i]? = some before ∧ join.id = before.id ∧
      join.parent = before.parent ∧ join.path = before.path ∧ join.target = before.target := by
  rw [establish, List.getElem?_modify] at h
  rcases Option.map_eq_some_iff.mp h with ⟨before, hbefore, rfl⟩
  refine ⟨before, hbefore, ?_⟩
  split <;> simp

/-- No join is lost by giving one its kind and its alias. -/
theorem exists_getElem?_joins_establish (id : JoinId) (kind : JoinKind) (label : Option String)
    {i : Nat} {before : Join} (h : query.joins[i]? = some before) :
    ∃ join, (query.establish id kind label).joins[i]? = some join ∧ join.id = before.id ∧
      join.parent = before.parent ∧ join.path = before.path ∧ join.target = before.target := by
  rw [establish, List.getElem?_modify, h]
  refine ⟨_, rfl, ?_⟩
  split <;> simp

theorem entityOf_establish (query : Query) (id : JoinId) (kind : JoinKind)
    (label : Option String) (context : Context) :
    (query.establish id kind label).entityOf context = query.entityOf context := by
  cases context with
  | root => rfl
  | join other =>
      simp only [entityOf, join?, establish, List.getElem?_modify]
      cases query.joins[other]? with
      | none => rfl
      | some join => by_cases same : id = other <;> simp [same]

theorem Joined.establish (joined : query.Joined metadata) (id : JoinId) (kind : JoinKind)
    (label : Option String) : (query.establish id kind label).Joined metadata := by
  constructor
  · intro i join hjoin
    rcases getElem?_joins_establish id kind label hjoin with ⟨before, hbefore, id_eq, -⟩
    rw [id_eq, joined.id_eq hbefore]
  · intro parent path other
    rw [show (query.establish id kind label).index = query.index from rfl, joined.get?_index_iff]
    constructor
    · rintro ⟨before, hbefore, rfl, rfl⟩
      obtain ⟨join, hjoin, -, parent_eq, path_eq, -⟩ :=
        exists_getElem?_joins_establish id kind label hbefore
      exact ⟨join, hjoin, parent_eq, path_eq⟩
    · rintro ⟨join, hjoin, rfl, rfl⟩
      obtain ⟨before, hbefore, -, parent_eq, path_eq, -⟩ :=
        getElem?_joins_establish id kind label hjoin
      exact ⟨before, hbefore, parent_eq.symm, path_eq.symm⟩
  · intro i join above hjoin parent_eq
    rcases getElem?_joins_establish id kind label hjoin with ⟨before, hbefore, -, same, -⟩
    exact joined.parent_lt hbefore (same.symm.trans parent_eq)
  · intro i join hjoin
    obtain ⟨before, hbefore, -, parent_eq, path_eq, target_eq⟩ :=
      getElem?_joins_establish id kind label hjoin
    rw [entityOf_establish, parent_eq, path_eq, target_eq]
    exact joined.leads hbefore

/-- Joining ahead of a compile keeps a query joined along metadata. -/
theorem Joined.join (joined : query.Joined metadata) {parent : Context} {association : String}
    {kind : JoinKind} {label : Option String} {id : JoinId}
    (h : query.join metadata parent association kind label = .ok (id, next)) :
    next.Joined metadata := by
  rcases exists_of_join_eq_ok h with ⟨owner, target, hparent, hleads, rfl, rfl⟩
  exact (joined.ensureJoin hparent hleads).establish _ kind label

end FilterQuery.Query
