import FilterQuery.Proofs.Selector.Soundness
import Mathlib.Data.List.MinMax

/-!
# Positions of walks

How a walk goes on depends only on the type that it has come to and on the segments that
are left.  A step looks at no more of these than the longest alias has, and carries along
what lies behind them.
-/

namespace FilterQuery

namespace AliasTable

variable {table : AliasTable} {entity : EntityId} {name path : String}

/-- The entities that have aliases. -/
def entities (table : AliasTable) : List EntityId :=
  (table.mapping.getD []).map (·.1)

/-- All aliases with what they stand for. -/
def pairs (table : AliasTable) : List (String × String) :=
  (table.mapping.getD []).flatMap (·.2)

/-- The largest number of segments that an alias has, or one. -/
def width (table : AliasTable) : Nat :=
  (table.pairs.map fun pair => (Text.segments pair.1).length).foldr max 1

theorem exists_of_map_eq_some (h : table.map entity name = some path) :
    ∃ aliases, (entity, aliases) ∈ table.mapping.getD [] ∧ (name, path) ∈ aliases := by
  rcases Option.bind_eq_some_iff.mp h with ⟨mapping, mapping_eq, h⟩
  rcases Option.bind_eq_some_iff.mp h with ⟨aliases, aliases_eq, path_eq⟩
  rw [mapping_eq]
  exact ⟨aliases, Keyed.mem_of_get?_eq_some aliases_eq, Keyed.mem_of_get?_eq_some path_eq⟩

theorem mem_entities_of_map_eq_some (h : table.map entity name = some path) :
    entity ∈ table.entities := by
  rcases exists_of_map_eq_some h with ⟨aliases, member, -⟩
  exact List.mem_map.mpr ⟨_, member, rfl⟩

theorem mem_pairs_of_map_eq_some (h : table.map entity name = some path) :
    (name, path) ∈ table.pairs := by
  rcases exists_of_map_eq_some h with ⟨aliases, member, pair⟩
  exact List.mem_flatMap.mpr ⟨_, member, pair⟩

/-- No alias has more segments than the width. -/
theorem length_le_width (h : table.map entity name = some path) :
    (Text.segments name).length ≤ table.width :=
  List.le_max_of_le' 1 (List.mem_map.mpr ⟨_, mem_pairs_of_map_eq_some h, rfl⟩) le_rfl

theorem width_pos (table : AliasTable) : 0 < table.width := by
  rw [width]
  induction table.pairs with
  | nil => exact Nat.one_pos
  | cons pair pairs ih => exact Nat.lt_of_lt_of_le ih (Nat.le_max_right _ _)

end AliasTable

namespace Selector

variable {metadata : Metadata} {table : AliasTable} {owner : EntityId}

/-! ## Windows -/

theorem expandWithin_append (mapper : Mapper) (owner : EntityId) (front back : List String)
    {bound : Nat} (inside : bound ≤ front.length) :
    expandWithin mapper owner (front ++ back) bound =
      expandWithin mapper owner front bound ++ back := by
  induction bound with
  | zero => rfl
  | succ bound ih =>
      rw [expandWithin, expandWithin, List.take_append_of_le_length inside,
        List.drop_append_of_le_length inside]
      split
      · rw [List.append_assoc]
      · exact ih (by omega)

theorem length_segments_dotted_take {pending : List String} (plain : Text.Plain pending)
    {length : Nat} (inside : length < pending.length) :
    (Text.segments (Text.dotted (pending.take (length + 1)))).length = length + 1 := by
  have taken_length : (pending.take (length + 1)).length = length + 1 :=
    List.length_take_of_le inside
  have taken_ne : pending.take (length + 1) ≠ [] := by
    apply List.ne_nil_of_length_pos
    rw [taken_length]
    exact length.succ_pos
  rw [Text.segments_dotted taken_ne fun segment member =>
    plain segment (List.mem_of_mem_take member), taken_length]

/-- Runs of segments that are longer than every alias are not looked up with success. -/
theorem expandWithin_eq_width {pending : List String} (plain : Text.Plain pending) {bound : Nat}
    (wide : table.width ≤ bound) (inside : bound ≤ pending.length) :
    expandWithin table.map owner pending bound =
      expandWithin table.map owner pending table.width := by
  induction bound, wide using Nat.le_induction with
  | base => rfl
  | succ bound wide ih =>
      have absent : table.map owner (Text.dotted (pending.take (bound + 1))) = none := by
        by_contra mapped
        rcases Option.ne_none_iff_exists'.mp mapped with ⟨path, mapped⟩
        have narrow := AliasTable.length_le_width mapped
        rw [length_segments_dotted_take plain inside] at narrow
        omega
      rw [expandWithin, absent]
      exact ih (by omega)

/-- What lies behind the width of a table is carried along. -/
theorem expand_append {front back : List String} (wide : table.width ≤ front.length)
    (plain : Text.Plain (front ++ back)) :
    expand table.map owner (front ++ back) = expand table.map owner front ++ back := by
  have longer : front.length ≤ (front ++ back).length := by simp
  rw [expand, expand, expandWithin_eq_width plain (wide.trans longer) le_rfl,
    expandWithin_eq_width plain.of_append_left wide le_rfl, expandWithin_append _ _ _ _ wide]

/-! ## Advancing -/

/-- Where a walk is, as far as this bears on how it goes on. -/
structure Position where
  owner : EntityId
  pending : List String

def Walk.position (walk : Walk) : Position :=
  ⟨walk.owner, walk.pending⟩

/-- The type that a property leads into. -/
def entered? (metadata : Metadata) (owner : EntityId) (segment : String) : Option EntityId :=
  match metadata.property owner segment with
  | some (.embedded inner) => some inner
  | some (.association target _) => some target
  | _ => none

/-- The position behind a step, unless the step ends the walk. -/
def advance (metadata : Metadata) (mapper : Mapper) (position : Position) : Option Position :=
  match expand mapper position.owner position.pending with
  | segment :: next :: rest =>
      (entered? metadata position.owner segment).map fun owner => ⟨owner, next :: rest⟩
  | _ => none

/-- The position behind some steps, unless one of them ends the walk. -/
def positionAfter (metadata : Metadata) (mapper : Mapper) : Nat → Position → Option Position
  | 0, position => some position
  | steps + 1, position =>
      (positionAfter metadata mapper steps position).bind (advance metadata mapper)

theorem advance_eq_some_iff {mapper : Mapper} {position next : Position} :
    advance metadata mapper position = some next ↔
      ∃ segment, expand mapper position.owner position.pending = segment :: next.pending ∧
        next.pending ≠ [] ∧ entered? metadata position.owner segment = some next.owner := by
  unfold advance
  constructor
  · intro h
    split at h
    · rename_i segment following rest expanded
      rcases Option.map_eq_some_iff.mp h with ⟨owner, entered, rfl⟩
      exact ⟨segment, expanded, List.cons_ne_nil _ _, entered⟩
    · cases h
  · rintro ⟨segment, expanded, more, entered⟩
    rcases next with ⟨owner, pending⟩
    rcases List.exists_cons_of_ne_nil more with ⟨following, rest, rfl⟩
    simp [expanded, entered]

/-- A step goes on to the next position, or ends the walk where there is none. -/
theorem advance_position (metadata : Metadata) (mapper : Mapper) (selector : String) (walk : Walk) :
    (step metadata mapper selector walk).Holds
      (fun next => advance metadata mapper walk.position = some next.position)
      (fun _ _ => advance metadata mapper walk.position = none) := by
  have move := move_step metadata mapper selector walk
  revert move
  generalize step metadata mapper selector walk = progress
  intro move
  cases move with
  | exhausted noSegments => simp [Progress.Holds, advance, Walk.position, noSegments]
  | @unknown segment rest segments property =>
      cases rest <;> simp [Progress.Holds, advance, Walk.position, segments, entered?, property]
  | @value segment rest type segments property =>
      cases rest <;> simp [Progress.Holds, advance, Walk.position, segments, entered?, property]
  | composite segments property => simp [Progress.Holds, advance, Walk.position, segments]
  | enter segments more property =>
      refine advance_eq_some_iff.mpr ⟨_, segments, more, ?_⟩
      simp [entered?, Walk.position, property]
  | reference segments property => simp [Progress.Holds, advance, Walk.position, segments]
  | whole segments property => simp [Progress.Holds, advance, Walk.position, segments]
  | follow segments more property =>
      refine advance_eq_some_iff.mpr ⟨_, segments, more, ?_⟩
      simp [entered?, Walk.position, property]
  | behind segments property =>
      simp [Progress.Holds, advance, Walk.position, segments, entered?, property]
  | element segments property => simp [Progress.Holds, advance, Walk.position, segments]

/-- The last step of a run. -/
theorem run_succ_last (metadata : Metadata) (mapper : Mapper) (selector : String) (steps : Nat)
    (walk : Walk) :
    run metadata mapper selector (steps + 1) walk =
      match run metadata mapper selector steps walk with
      | .walking next => step metadata mapper selector next
      | .stopped outcome query => .stopped outcome query := by
  induction steps generalizing walk with
  | zero => cases stepped : step metadata mapper selector walk <;> simp [run, stepped]
  | succ steps ih =>
      rw [run]
      conv_rhs => rw [run]
      cases step metadata mapper selector walk with
      | walking next => exact ih next
      | stopped outcome query => rfl

/-- A run comes to the position behind its steps, or has ended where there is none. -/
theorem run_position (metadata : Metadata) (mapper : Mapper) (selector : String) (steps : Nat)
    (walk : Walk) :
    (run metadata mapper selector steps walk).Holds
      (fun next => positionAfter metadata mapper steps walk.position = some next.position)
      (fun _ _ => positionAfter metadata mapper steps walk.position = none) := by
  induction steps with
  | zero => rfl
  | succ steps ih =>
      rw [run_succ_last]
      cases ran : run metadata mapper selector steps walk with
      | walking next =>
          rw [ran] at ih
          have reached : positionAfter metadata mapper steps walk.position =
              some next.position := ih
          simp only [positionAfter, reached, Option.bind_some]
          exact advance_position metadata mapper selector next
      | stopped outcome query =>
          rw [ran] at ih
          have ended : positionAfter metadata mapper steps walk.position = none := ih
          simp [Progress.Holds, positionAfter, ended]

theorem positionAfter_add (metadata : Metadata) (mapper : Mapper) (steps more : Nat)
    (position : Position) :
    positionAfter metadata mapper (steps + more) position =
      (positionAfter metadata mapper steps position).bind (positionAfter metadata mapper more) := by
  induction more with
  | zero => simp [positionAfter]
  | succ more ih =>
      rw [Nat.add_succ, positionAfter, ih, Option.bind_assoc]
      rfl

/-! ## Carrying along -/

theorem plain_advance {mapper : Mapper} {position next : Position}
    (plain : Text.Plain position.pending)
    (advanced : advance metadata mapper position = some next) : Text.Plain next.pending := by
  rcases advance_eq_some_iff.mp advanced with ⟨segment, expanded, -, -⟩
  have plain_all : Text.Plain (expand mapper position.owner position.pending) := plain_expand plain
  rw [expanded] at plain_all
  exact plain_all.of_cons

/-- A step in front of segments that it does not come to goes in front of any others. -/
theorem exists_advance_append {front back : List String} {next : Position}
    (wide : table.width ≤ front.length) (plain : Text.Plain (front ++ back))
    (advanced : advance metadata table.map ⟨owner, front ++ back⟩ = some next)
    (long : table.width + back.length ≤ next.pending.length) :
    ∃ rest, next.pending = rest ++ back ∧ table.width ≤ rest.length ∧
      ∀ other, Text.Plain (front ++ other) →
        advance metadata table.map ⟨owner, front ++ other⟩ = some ⟨next.owner, rest ++ other⟩ := by
  rcases advance_eq_some_iff.mp advanced with ⟨segment, expanded, -, entered⟩
  have front_ne : front ≠ [] := List.ne_nil_of_length_pos (table.width_pos.trans_le wide)
  obtain ⟨first, rest, front_eq⟩ :=
    List.exists_cons_of_ne_nil (expand_ne_nil table.map owner front_ne)
  rw [expand_append wide plain, front_eq, List.cons_append, List.cons.injEq] at expanded
  rcases expanded with ⟨rfl, pending_eq⟩
  have rest_wide : table.width ≤ rest.length := by
    rw [← pending_eq, List.length_append] at long
    omega
  refine ⟨rest, pending_eq.symm, rest_wide, fun other other_plain => ?_⟩
  rw [advance_eq_some_iff]
  refine ⟨first, ?_, ?_, entered⟩
  · rw [expand_append wide other_plain, front_eq, List.cons_append]
  · have rest_ne : rest ≠ [] := List.ne_nil_of_length_pos (table.width_pos.trans_le rest_wide)
    simp [rest_ne]

/-- Steps in front of segments that they do not come to go in front of any others. -/
theorem exists_positionAfter_append {front back : List String} (wide : table.width ≤ front.length)
    (plain : Text.Plain (front ++ back)) {steps : Nat}
    (long : ∀ count ≤ steps, ∀ between,
      positionAfter metadata table.map count ⟨owner, front ++ back⟩ = some between →
        table.width + back.length ≤ between.pending.length) {next : Position}
    (reached : positionAfter metadata table.map steps ⟨owner, front ++ back⟩ = some next) :
    ∃ rest, next.pending = rest ++ back ∧ table.width ≤ rest.length ∧ Text.Plain rest ∧
      ∀ other, Text.Plain other →
        positionAfter metadata table.map steps ⟨owner, front ++ other⟩ =
          some ⟨next.owner, rest ++ other⟩ := by
  induction steps generalizing next with
  | zero =>
      cases reached
      exact ⟨front, rfl, wide, plain.of_append_left, fun other _ => rfl⟩
  | succ steps ih =>
      rcases Option.bind_eq_some_iff.mp reached with ⟨middle, reached_middle, advanced⟩
      obtain ⟨rest, pending_eq, rest_wide, rest_plain, carried⟩ :=
        ih (fun count below => long count (by omega)) reached_middle
      rcases middle with ⟨middleOwner, pending⟩
      obtain rfl : pending = rest ++ back := pending_eq
      have pending_plain : Text.Plain (rest ++ back) := rest_plain.append plain.of_append_right
      obtain ⟨last, last_eq, last_wide, carried_last⟩ :=
        exists_advance_append rest_wide pending_plain advanced (long _ le_rfl next reached)
      refine ⟨last, last_eq, last_wide, ?_, fun other other_plain => ?_⟩
      · have := plain_advance pending_plain advanced
        rw [last_eq] at this
        exact this.of_append_left
      · rw [positionAfter, carried other other_plain, Option.bind_some]
        exact carried_last other (rest_plain.append other_plain)

end Selector

end FilterQuery
