import FilterQuery.Proofs.Selector.Entrances
import FilterQuery.Proofs.Selector.Repeated
import FilterQuery.Proofs.Store.Conformity

/-!
# Aliases of properties

The walk of a selector sees the aliases of a type only while it is at that type, and sees nothing
of an alias but what it stands for.  So the longest alias in front of a selector can be replaced by
its path, aliases of types that the walk does not come to can be anything, and an alias that has
been added and removed again has left no trace.
-/

namespace FilterQuery

/-! ## Dotted prefixes -/

namespace Text

/-- A path with the rest of a selector behind it, if there is any. -/
def followedBy (path : String) : Option String → String
  | none => path
  | some rest => path ++ "." ++ rest

/-- A path that is the whole of another one, or is followed by a dot in it. -/
def IsDottedPrefix (front whole : String) : Prop :=
  ∃ rest?, whole = followedBy front rest?

theorem segments_followedBy (path : String) (rest? : Option String) :
    segments (followedBy path rest?) = segments path ++ (rest?.map segments).getD [] := by
  cases rest? with
  | none => simp [followedBy]
  | some rest =>
      have behind := segments_behind (segments_ne_nil path) (plain_segments path) rest
      rwa [dotted_segments] at behind

/-- Behind a run of leading segments there are the others. -/
theorem dotted_append {front back : List String} (first : front ≠ []) (others : back ≠ []) :
    dotted (front ++ back) = dotted front ++ "." ++ dotted back :=
  String.intercalate_append_of_ne_nil first others

theorem length_dotted_lt {front back : List String} (first : front ≠ []) (others : back ≠ []) :
    (dotted front).length < (dotted (front ++ back)).length := by
  have dot_length : ".".length = 1 := rfl
  rw [dotted_append first others, String.length_append, String.length_append, dot_length]
  omega

/-- A path starts with the first segment of its dotted prefixes. -/
theorem IsDottedPrefix.head?_eq {front whole : String} (dotted : IsDottedPrefix front whole) :
    (segments whole).head? = (segments front).head? := by
  obtain ⟨rest?, rfl⟩ := dotted
  rw [segments_followedBy, List.head?_append_of_ne_nil _ (segments_ne_nil front)]

/-- Leading segments of a path make a dotted prefix. -/
theorem isDottedPrefix_take (whole : String) (length : Nat) :
    IsDottedPrefix (dotted ((segments whole).take (length + 1))) whole := by
  have first : (segments whole).take (length + 1) ≠ [] := by
    simpa using segments_ne_nil whole
  have whole_eq := congrArg dotted (List.take_append_drop (length + 1) (segments whole))
  rw [dotted_segments] at whole_eq
  by_cases more : (segments whole).drop (length + 1) = []
  · rw [more, List.append_nil] at whole_eq
    exact ⟨none, whole_eq.symm⟩
  · rw [dotted_append first more] at whole_eq
    exact ⟨some _, whole_eq.symm⟩

end Text

namespace Selector

variable {metadata : Metadata} {mapper other : Mapper} {selector : String} {walk : Walk}
  {query : Query} {origin : Origin}

/-! ## Expansion -/

theorem expandWithin_eq_self {owner : EntityId} {pending : List String} {bound : Nat}
    (unmapped : ∀ length < bound,
      mapper owner (Text.dotted (pending.take (length + 1))) = none) :
    expandWithin mapper owner pending bound = pending := by
  induction bound with
  | zero => rfl
  | succ bound ih =>
      rw [expandWithin, unmapped bound (Nat.lt_succ_self bound)]
      exact ih fun length below => unmapped length (Nat.lt_succ_of_lt below)

/-- The longest run of leading segments that is an alias is replaced. -/
theorem expandWithin_of_longest {owner : EntityId} {pending : List String} {path : String}
    {length bound : Nat} (inside : length < bound)
    (mapped : mapper owner (Text.dotted (pending.take (length + 1))) = some path)
    (longest : ∀ longer, length < longer → longer < bound →
      mapper owner (Text.dotted (pending.take (longer + 1))) = none) :
    expandWithin mapper owner pending bound =
      Text.segments path ++ pending.drop (length + 1) := by
  induction bound with
  | zero => cases inside
  | succ bound ih =>
      rcases Nat.lt_succ_iff_lt_or_eq.mp inside with below | rfl
      · rw [expandWithin, longest bound below (Nat.lt_succ_self bound)]
        exact ih below fun longer above lower => longest longer above (Nat.lt_succ_of_lt lower)
      · rw [expandWithin, mapped]

/-- A selector without an alias in front is not expanded. -/
theorem expand_of_unmapped {owner : EntityId}
    (unmapped : ∀ front, Text.IsDottedPrefix front selector → mapper owner front = none) :
    expand mapper owner (Text.segments selector) = Text.segments selector :=
  expandWithin_eq_self fun length _ => unmapped _ (Text.isDottedPrefix_take selector length)

/-- The longest alias in front of a selector is replaced by its path. -/
theorem expand_of_longest {owner : EntityId} {name path : String} {rest? : Option String}
    (mapped : mapper owner name = some path)
    (longest : ∀ front, Text.IsDottedPrefix front (Text.followedBy name rest?) →
      (mapper owner front).isSome → front.length ≤ name.length) :
    expand mapper owner (Text.segments (Text.followedBy name rest?)) =
      Text.segments (Text.followedBy path rest?) := by
  obtain ⟨length, name_length⟩ : ∃ length, (Text.segments name).length = length + 1 :=
    Nat.exists_eq_succ_of_ne_zero (by simpa using Text.segments_ne_nil name)
  have prefixes := Text.isDottedPrefix_take (Text.followedBy name rest?)
  rw [Text.segments_followedBy] at prefixes ⊢
  rw [Text.segments_followedBy]
  generalize (rest?.map Text.segments).getD [] = rest at prefixes ⊢
  have taken : (Text.segments name ++ rest).take (length + 1) = Text.segments name :=
    List.take_left' name_length
  have dropped : (Text.segments name ++ rest).drop (length + 1) = rest :=
    List.drop_left' name_length
  have inside : length < (Text.segments name ++ rest).length := by
    rw [List.length_append, name_length]
    omega
  rw [expand, expandWithin_of_longest inside (by rwa [taken, Text.dotted_segments]) ?longer,
    dropped]
  intro longer above below
  have more : rest.take (longer - length) ≠ [] := by
    rw [List.length_append, name_length] at below
    apply List.ne_nil_of_length_pos
    rw [List.length_take]
    omega
  have run_eq : (Text.segments name ++ rest).take (longer + 1) =
      Text.segments name ++ rest.take (longer - length) := by
    rw [List.take_append, name_length, List.take_of_length_le (by omega), Nat.add_sub_add_right]
  have longer_text := Text.length_dotted_lt (Text.segments_ne_nil name) more
  rw [← run_eq, Text.dotted_segments] at longer_text
  by_contra alsoMapped
  have bounded := longest _ (prefixes longer) (Option.isSome_iff_ne_none.mpr alsoMapped)
  exact absurd longer_text (Nat.not_lt.mpr bounded)

/-! ## Outcomes -/

/-- A selector comes to an outcome and leaves a query behind. -/
def Resolves (metadata : Metadata) (mapper : Mapper) (query : Query) (origin : Origin)
    (selector : String) (outcome : Except CompileError Attribute) (last : Query) : Prop :=
  ∃ steps, resolve metadata mapper steps query origin selector = .stopped outcome last

/-- A selector that does not start at the root with the alias of a join. -/
def StartsAtOrigin (query : Query) (origin : Origin) (selector : String) : Prop :=
  origin.context = .root → ∀ first ∈ (Text.segments selector).head?, query.joinLabeled? first = none

/-- A type that the walk of a selector comes to. -/
def Visits (metadata : Metadata) (mapper : Mapper) (query : Query) (origin : Origin)
    (selector : String) (entity : EntityId) : Prop :=
  ∃ walk steps next, start metadata query origin selector = .walking walk ∧
    run metadata mapper selector steps walk = .walking next ∧ next.owner = entity

theorem start_of_startsAtOrigin (metadata : Metadata)
    (starts : StartsAtOrigin query origin selector) :
    start metadata query origin selector =
      .walking
        { context := origin.context, owner := origin.entity, embedded := []
          pending := Text.segments selector, query } := by
  rcases origin with ⟨context, entity⟩
  cases context with
  | root => exact start_of_unlabeled (starts rfl) entity
  | join id => rfl

/-- The number of steps that a selector is given does not bear on what it comes to. -/
theorem resolves_iff_of_start (started : start metadata query origin selector = .walking walk)
    (outcome : Except CompileError Attribute) (last : Query) :
    Resolves metadata mapper query origin selector outcome last ↔
      ∃ steps, run metadata mapper selector steps walk = .stopped outcome last := by
  have resolve_eq (steps : Nat) : resolve metadata mapper steps query origin selector =
      run metadata mapper selector (walk.pending.length + steps) walk := by
    rw [resolve, started]
  constructor
  · rintro ⟨steps, stopped⟩
    exact ⟨_, (resolve_eq steps).symm.trans stopped⟩
  · rintro ⟨steps, stopped⟩
    refine ⟨steps, (resolve_eq steps).trans ?_⟩
    rw [Nat.add_comm]
    exact run_add_of_stopped metadata stopped _

/-! ## Transparency -/

/-- Walks with the same segments in front of them, once aliases are replaced, go the same way. -/
theorem run_succ_congr_pending {pending : List String}
    (expand_eq : expand mapper walk.owner pending = expand mapper walk.owner walk.pending)
    (steps : Nat) :
    run metadata mapper selector (steps + 1) { walk with pending } =
      run metadata mapper selector (steps + 1) walk := by
  have step_eq : step metadata mapper selector { walk with pending } =
      step metadata mapper selector walk := by
    unfold step
    rw [expand_eq]
    rfl
  rw [run, run, step_eq]

/-- A selector comes to what it comes to with its longest alias replaced. -/
theorem resolves_alias_iff {name path : String} {rest? : Option String}
    (mapped : mapper origin.entity name = some path)
    (longest : ∀ front, Text.IsDottedPrefix front (Text.followedBy name rest?) →
      (mapper origin.entity front).isSome → front.length ≤ name.length)
    (unmapped : ∀ front, Text.IsDottedPrefix front (Text.followedBy path rest?) →
      mapper origin.entity front = none)
    (starts : StartsAtOrigin query origin (Text.followedBy name rest?))
    (pathStarts : StartsAtOrigin query origin (Text.followedBy path rest?))
    (outcome : Except CompileError Attribute) (last : Query) :
    Resolves metadata mapper query origin (Text.followedBy name rest?) outcome last ↔
      Resolves metadata mapper query origin (Text.followedBy path rest?) outcome last := by
  rw [resolves_iff_of_start (start_of_startsAtOrigin metadata starts),
    resolves_iff_of_start (start_of_startsAtOrigin metadata pathStarts)]
  apply exists_congr
  intro steps
  cases steps with
  | zero => exact iff_of_false nofun nofun
  | succ steps =>
      let walk : Walk :=
        { context := origin.context, owner := origin.entity, embedded := []
          pending := Text.segments (Text.followedBy path rest?), query }
      have expand_eq : expand mapper walk.owner (Text.segments (Text.followedBy name rest?)) =
          expand mapper walk.owner walk.pending :=
        (expand_of_longest mapped longest).trans (expand_of_unmapped unmapped).symm
      have run_eq : run metadata mapper (Text.followedBy path rest?) (steps + 1)
            { walk with pending := Text.segments (Text.followedBy name rest?) } =
          run metadata mapper (Text.followedBy path rest?) (steps + 1) walk :=
        run_succ_congr_pending expand_eq steps
      rw [run_eq_of_pending_ne_nil (Text.segments_ne_nil _), run_eq]

/-! ## Scope -/

theorem expandWithin_congr {owner : EntityId} (agree : ∀ name, other owner name = mapper owner name)
    (pending : List String) (bound : Nat) :
    expandWithin other owner pending bound = expandWithin mapper owner pending bound := by
  induction bound with
  | zero => rfl
  | succ bound ih => rw [expandWithin, expandWithin, agree, ih]

/-- A step sees the aliases of the type that it is taken at. -/
theorem step_congr_mapper (agree : ∀ name, other walk.owner name = mapper walk.owner name) :
    step metadata other selector walk = step metadata mapper selector walk := by
  have expand_eq : expand other walk.owner walk.pending = expand mapper walk.owner walk.pending :=
    expandWithin_congr agree walk.pending walk.pending.length
  unfold step
  rw [expand_eq]

/-- A run sees the aliases of the types that it comes to. -/
theorem run_congr_mapper {steps : Nat}
    (agree : ∀ count next, run metadata mapper selector count walk = .walking next →
      ∀ name, other next.owner name = mapper next.owner name) :
    run metadata other selector steps walk = run metadata mapper selector steps walk := by
  induction steps generalizing walk with
  | zero => rfl
  | succ steps ih =>
      rw [run, run, step_congr_mapper (agree 0 walk rfl)]
      cases step_eq : step metadata mapper selector walk with
      | stopped outcome last => rfl
      | walking next =>
          apply ih
          intro count later ran
          apply agree (count + 1)
          rw [run, step_eq]
          exact ran

/-- Aliases of types that the walk of a selector does not come to do not bear on it. -/
theorem resolve_congr_mapper {entity : EntityId}
    (agree : ∀ owner ≠ entity, ∀ name, other owner name = mapper owner name)
    (unvisited : ¬ Visits metadata mapper query origin selector entity) (steps : Nat) :
    resolve metadata other steps query origin selector =
      resolve metadata mapper steps query origin selector := by
  rw [resolve, resolve]
  cases started : start metadata query origin selector with
  | stopped outcome last => rfl
  | walking walk =>
      apply run_congr_mapper
      intro count next ran
      apply agree
      rintro rfl
      exact unvisited ⟨walk, count, next, started, ran, rfl⟩

end Selector

/-! ## Revocation -/

namespace AliasTable

variable (table : AliasTable) (entity : EntityId) (name path : String)

theorem map_eq_get?_aliases : table.map entity name = (table.aliases entity).get? name := by
  rcases table with ⟨_ | mapping⟩
  · rfl
  · unfold map aliases
    dsimp only [Option.getD_some, Option.bind_eq_bind, Option.bind_some]
    cases mapping.get? entity <;> rfl

theorem aliases_setEntity (aliases : Keyed String String) :
    (table.setEntity entity aliases).aliases entity = aliases := by
  simp [setEntity, AliasTable.aliases]

/-- What an alias stood for is given back when it is removed. -/
theorem remove_add_fst : ((table.add entity name path).remove entity name).1 = some path := by
  have mapped : (table.add entity name path).map entity name = some path := by
    simp [add, map_setEntity]
  unfold remove
  rw [mapped]
  rfl

/-- An alias that was none before is none again once it has been removed. -/
theorem map_remove_add (absent : table.map entity name = none) :
    ((table.add entity name path).remove entity name).2.map = table.map := by
  have mapped : (table.add entity name path).map entity name = some path := by
    simp [add, map_setEntity]
  have removed : ((table.add entity name path).remove entity name).2 =
      (table.add entity name path).setEntity entity
        (((table.aliases entity).put name path).erase name) := by
    unfold remove
    rw [mapped, ← aliases_setEntity table entity ((table.aliases entity).put name path)]
    rfl
  funext owner key
  rw [removed, map_setEntity]
  split
  · rename_i same
    subst same
    rw [Keyed.get?_erase, Keyed.get?_put]
    split
    · rename_i key_eq
      rw [← key_eq, absent]
    · exact (map_eq_get?_aliases table entity key).symm
  · rename_i different
    rw [add, map_setEntity, if_neg different]

end AliasTable

/-! ## Selectors with aliases -/

namespace Selector

/-- Aliases are transparent, scoped and revocable.  A selector comes to the same outcome and the
same joins with the longest alias in front of it replaced by its path, if no alias is in front of
it then.  It is resolved alike whatever the aliases of a type are that its walk does not come to.
An alias that a type did not have is given back when it is removed after it has been added, and
every selector is resolved then as before. -/
theorem aliases_transparent_scoped_revocable (metadata : Metadata) (table : AliasTable)
    (query : Query) (origin : Origin) :
    (∀ (name path : String) (rest? : Option String),
      table.map origin.entity name = some path →
      (∀ front, Text.IsDottedPrefix front (Text.followedBy name rest?) →
        (table.map origin.entity front).isSome → front.length ≤ name.length) →
      (∀ front, Text.IsDottedPrefix front (Text.followedBy path rest?) →
        table.map origin.entity front = none) →
      StartsAtOrigin query origin (Text.followedBy name rest?) →
      StartsAtOrigin query origin (Text.followedBy path rest?) →
      ∀ outcome last,
        Resolves metadata table.map query origin (Text.followedBy name rest?) outcome last ↔
          Resolves metadata table.map query origin (Text.followedBy path rest?) outcome last) ∧
    (∀ (selector : String) (entity : EntityId) (other : AliasTable),
      (∀ owner ≠ entity, ∀ name, other.map owner name = table.map owner name) →
      ¬ Visits metadata table.map query origin selector entity →
      ∀ steps, resolve metadata other.map steps query origin selector =
        resolve metadata table.map steps query origin selector) ∧
    ∀ (entity : EntityId) (name path : String), table.map entity name = none →
      ((table.add entity name path).remove entity name).1 = some path ∧
      ∀ steps selector,
        resolve metadata ((table.add entity name path).remove entity name).2.map steps query origin
            selector =
          resolve metadata table.map steps query origin selector := by
  refine ⟨?transparent, ?elsewhere, ?revocable⟩
  case transparent =>
    intro name path rest? mapped longest unmapped starts pathStarts outcome last
    exact resolves_alias_iff mapped longest unmapped starts pathStarts outcome last
  case elsewhere =>
    intro selector entity other agree unvisited steps
    exact resolve_congr_mapper agree unvisited steps
  case revocable =>
    intro entity name path absent
    refine ⟨table.remove_add_fst entity name path, ?_⟩
    intro steps selector
    rw [table.map_remove_add entity name path absent]

/-- Two aliases of departments fit the selector, and one of employees comes behind them. -/
theorem aliases_transparent_scoped_revocable_company :
    let table := ((AliasTable.empty.add ⟨1⟩ "team" "members").add ⟨1⟩ "team.boss"
      "members.chief").add ⟨2⟩ "number" "id"
    let query : Query := .select ⟨1⟩
    (∃ outcome last,
      Resolves company.metadata table.map query (.root ⟨1⟩) "team.boss.number" outcome last ∧
      Resolves company.metadata table.map query (.root ⟨1⟩) "members.chief.number" outcome last ∧
      last.joins.map (·.path) = ["members", "chief"]) ∧
    (∀ steps, resolve company.metadata (table.setEntity ⟨2⟩ [("id", "chief.id")]).map steps query
        (.root ⟨1⟩) "team" =
      resolve company.metadata table.map steps query (.root ⟨1⟩) "team") ∧
    ∀ steps selector,
      resolve company.metadata ((table.add ⟨2⟩ "boss" "chief").remove ⟨2⟩ "boss").2.map steps query
          (.root ⟨1⟩) selector =
        resolve company.metadata table.map steps query (.root ⟨1⟩) selector := by
  intro table query
  obtain ⟨transparent, elsewhere, revocable⟩ :=
    aliases_transparent_scoped_revocable company.metadata table query (.root ⟨1⟩)
  have starts (selector : String) : StartsAtOrigin query (.root ⟨1⟩) selector :=
    fun _ _ _ => rfl
  refine ⟨?transparent, ?elsewhere, (revocable ⟨2⟩ "boss" "chief" (by decide +kernel)).2⟩
  case transparent =>
    have known (front : String) (mapped : (table.map ⟨1⟩ front).isSome) :
        front = "team" ∨ front = "team.boss" := by
      obtain ⟨path, path_eq⟩ := Option.isSome_iff_exists.mp mapped
      rw [AliasTable.map_eq_get?_aliases] at path_eq
      have member := Keyed.mem_of_get?_eq_some path_eq
      have aliases_eq : table.aliases ⟨1⟩ =
          [("team", "members"), ("team.boss", "members.chief")] := by decide +kernel
      rw [aliases_eq] at member
      rcases (by simpa using member) with ⟨rfl, -⟩ | ⟨rfl, -⟩
      · exact .inl rfl
      · exact .inr rfl
    have same := transparent "team.boss" "members.chief" (some "number") (by decide +kernel)
      ?longest ?unmapped (starts _) (starts _)
    case longest =>
      intro front _ mapped
      rcases known front mapped with rfl | rfl <;> decide
    case unmapped =>
      intro front dotted
      by_contra mapped
      have first_eq := dotted.head?_eq
      rcases known front (Option.isSome_iff_ne_none.mpr mapped) with rfl | rfl <;>
        exact absurd first_eq (by decide +kernel)
    have joins_eq : (resolve company.metadata table.map 0 query (.root ⟨1⟩)
        "members.chief.number").query.joins.map (·.path) = ["members", "chief"] := by
      decide +kernel
    have ended : (resolve company.metadata table.map 0 query (.root ⟨1⟩)
        "members.chief.number").outcome?.isSome := by decide +kernel
    cases resolved : resolve company.metadata table.map 0 query (.root ⟨1⟩)
        "members.chief.number" with
    | walking walk =>
        rw [resolved] at ended
        cases ended
    | stopped outcome last =>
        rw [resolved] at joins_eq
        have resolves : Resolves company.metadata table.map query (.root ⟨1⟩)
          "members.chief.number" outcome last := ⟨0, resolved⟩
        exact ⟨outcome, last, (same outcome last).mpr resolves, resolves, joins_eq⟩
  case elsewhere =>
    apply elsewhere "team" ⟨2⟩
    · intro owner different name
      rw [AliasTable.map_setEntity, if_neg different.symm]
    · rintro ⟨walk, steps, next, started, ran, visited⟩
      rw [start_of_startsAtOrigin _ (starts "team")] at started
      cases started
      cases steps with
      | zero =>
          cases ran
          cases visited
      | succ steps =>
          cases ran

end Selector

end FilterQuery
