import FilterQuery.Proofs.Selector.Positions
import Mathlib.Data.Set.Finite.List
import Mathlib.Order.Preorder.Finite

/-!
# When walks come to an end

Each step drops a segment, but an alias may put several in its place, and what it stands for
is looked up for aliases again.  So a walk need not end.  One that does not comes back to a
type with the same segments in front of it, as far as aliases can tell, while what lay behind
these has not been touched; and a walk that does so repeats itself for ever.
-/

namespace FilterQuery.Selector

variable {metadata : Metadata} {table : AliasTable} {selector : String} {walk : Walk}

/-- A walk comes back to a type with the same segments in front of it, and has in between never
had fewer segments left than at first. -/
def Recurs (metadata : Metadata) (table : AliasTable) (selector : String) (walk : Walk) : Prop :=
  ∃ first last earlier later, first < last ∧
    run metadata table.map selector first walk = .walking earlier ∧
    run metadata table.map selector last walk = .walking later ∧
    later.owner = earlier.owner ∧
    later.pending.take table.width = earlier.pending.take table.width ∧
    ∀ steps between, first ≤ steps → steps ≤ last →
      run metadata table.map selector steps walk = .walking between →
        earlier.pending.length ≤ between.pending.length

/-! ## Walks that recur -/

/-- Positions from which one comes to such positions again are never the last ones. -/
theorem isSome_positionAfter_of_progress {mapper : Mapper} (Again : Position → Prop)
    (progress : ∀ position, Again position → ∃ steps next, 0 < steps ∧
      positionAfter metadata mapper steps position = some next ∧ Again next)
    (steps : Nat) {position : Position} (again : Again position) :
    (positionAfter metadata mapper steps position).isSome := by
  induction steps using Nat.strongRecOn generalizing position with
  | ind steps ih =>
      rcases progress position again with ⟨turn, next, positive, reached, again_next⟩
      by_cases within : turn ≤ steps
      · rcases Nat.exists_eq_add_of_le within with ⟨more, rfl⟩
        rw [positionAfter_add, reached, Option.bind_some]
        exact ih more (by omega) again_next
      · rcases Nat.exists_eq_add_of_le (Nat.le_of_not_le within) with ⟨more, rfl⟩
        rw [positionAfter_add] at reached
        rcases Option.bind_eq_some_iff.mp reached with ⟨middle, middle_eq, -⟩
        rw [middle_eq]
        rfl

/-- A turn that leaves alone what lies behind the window can be taken over and over. -/
theorem isSome_positionAfter_of_wide_turn {owner : EntityId} {front back later : List String}
    {turn : Nat} (positive : 0 < turn) (plain : Text.Plain (front ++ back))
    (front_length : front.length = table.width)
    (reached : positionAfter metadata table.map turn ⟨owner, front ++ back⟩ = some ⟨owner, later⟩)
    (window_eq : later.take table.width = front)
    (long : ∀ count ≤ turn, ∀ between,
      positionAfter metadata table.map count ⟨owner, front ++ back⟩ = some between →
        table.width + back.length ≤ between.pending.length) (steps : Nat) :
    (positionAfter metadata table.map steps ⟨owner, front ++ back⟩).isSome := by
  obtain ⟨rest, later_eq, rest_wide, rest_plain, carried⟩ :=
    exists_positionAfter_append front_length.ge plain long reached
  dsimp only at later_eq carried
  have front_eq : rest.take table.width = front := by
    rw [← window_eq, later_eq, List.take_append_of_le_length rest_wide]
  have rest_eq : front ++ rest.drop table.width = rest := by
    rw [← front_eq, List.take_append_drop]
  have added_plain : Text.Plain (rest.drop table.width) := by
    rw [← rest_eq] at rest_plain
    exact rest_plain.of_append_right
  apply isSome_positionAfter_of_progress
    fun position => ∃ other, Text.Plain other ∧ position = ⟨owner, front ++ other⟩
  · rintro _ ⟨other, other_plain, rfl⟩
    refine ⟨turn, _, positive, carried other other_plain, rest.drop table.width ++ other,
      added_plain.append other_plain, ?_⟩
    rw [← List.append_assoc, rest_eq]
  · exact ⟨back, plain.of_append_right, rfl⟩

/-- A turn that comes back to the same segments in the window can be taken over and over. -/
theorem isSome_positionAfter_of_turn {owner : EntityId} {pending later : List String} {turn : Nat}
    (positive : 0 < turn) (plain : Text.Plain pending)
    (reached : positionAfter metadata table.map turn ⟨owner, pending⟩ = some ⟨owner, later⟩)
    (window_eq : later.take table.width = pending.take table.width)
    (long : ∀ count ≤ turn, ∀ between,
      positionAfter metadata table.map count ⟨owner, pending⟩ = some between →
        pending.length ≤ between.pending.length) (steps : Nat) :
    (positionAfter metadata table.map steps ⟨owner, pending⟩).isSome := by
  by_cases wide : table.width ≤ pending.length
  · have front_length : (pending.take table.width).length = table.width :=
      List.length_take_of_le wide
    have pending_eq : pending.take table.width ++ pending.drop table.width = pending :=
      List.take_append_drop _ _
    have length_eq : table.width + (pending.drop table.width).length = pending.length := by
      rw [List.length_drop]
      omega
    have endless := isSome_positionAfter_of_wide_turn positive (pending_eq.symm ▸ plain)
      front_length (pending_eq.symm ▸ reached) window_eq
      (by rw [pending_eq, length_eq]; exact long) steps
    rwa [pending_eq] at endless
  · -- all segments are in the window, so that the position is the same again
    have later_eq : later = pending := by
      rw [List.take_of_length_le (Nat.le_of_not_le wide)] at window_eq
      have window_length := congrArg List.length window_eq
      rw [List.length_take] at window_length
      rw [← window_eq, List.take_of_length_le (by omega)]
    apply isSome_positionAfter_of_progress (· = ⟨owner, pending⟩)
    · rintro _ rfl
      exact ⟨turn, _, positive, reached, congrArg _ later_eq⟩
    · rfl

/-- Positions of a walk on its way. -/
theorem positionAfter_of_run_eq_walking {mapper : Mapper} {steps : Nat} {next : Walk}
    (h : run metadata mapper selector steps walk = .walking next) :
    positionAfter metadata mapper steps walk.position = some next.position := by
  have position := run_position metadata mapper selector steps walk
  rwa [h] at position

theorem exists_walking_of_isSome {mapper : Mapper} {steps : Nat}
    (h : (positionAfter metadata mapper steps walk.position).isSome) :
    ∃ next, run metadata mapper selector steps walk = .walking next := by
  have position := run_position metadata mapper selector steps walk
  cases ran : run metadata mapper selector steps walk with
  | walking next => exact ⟨next, rfl⟩
  | stopped outcome query =>
      rw [ran] at position
      have ended : positionAfter metadata mapper steps walk.position = none := position
      rw [ended] at h
      cases h

theorem plain_positionAfter {mapper : Mapper} {steps : Nat} {position next : Position}
    (plain : Text.Plain position.pending)
    (reached : positionAfter metadata mapper steps position = some next) :
    Text.Plain next.pending := by
  induction steps generalizing next with
  | zero =>
      cases reached
      exact plain
  | succ steps ih =>
      rcases Option.bind_eq_some_iff.mp reached with ⟨middle, reached_middle, advanced⟩
      exact plain_advance (ih reached_middle) advanced

theorem exists_walking_of_le {mapper : Mapper} {steps more : Nat} (le : steps ≤ more) {next : Walk}
    (h : run metadata mapper selector more walk = .walking next) :
    ∃ middle, run metadata mapper selector steps walk = .walking middle := by
  rcases Nat.exists_eq_add_of_le le with ⟨rest, rfl⟩
  cases ran : run metadata mapper selector steps walk with
  | walking middle => exact ⟨middle, rfl⟩
  | stopped outcome query =>
      rw [run_add_of_stopped metadata ran rest] at h
      cases h

/-- A walk that recurs never ends. -/
theorem Recurs.exists_walking (recurs : Recurs metadata table selector walk)
    (plain : Text.Plain walk.pending) (steps : Nat) :
    ∃ next, run metadata table.map selector steps walk = .walking next := by
  obtain ⟨first, last, earlier, later, before, earlier_eq, later_eq, owner_eq, window_eq, long⟩ :=
    recurs
  rcases Nat.exists_eq_add_of_lt before with ⟨turn, rfl⟩
  have reached := positionAfter_of_run_eq_walking earlier_eq
  have again (count : Nat) : positionAfter metadata table.map (first + count) walk.position =
      positionAfter metadata table.map count earlier.position := by
    rw [positionAfter_add, reached, Option.bind_some]
  have turned : positionAfter metadata table.map (turn + 1) earlier.position =
      some later.position := by
    rw [← again]
    exact positionAfter_of_run_eq_walking later_eq
  have long_positions : ∀ count ≤ turn + 1, ∀ between,
      positionAfter metadata table.map count earlier.position = some between →
        earlier.pending.length ≤ between.pending.length := by
    intro count below between found
    obtain ⟨next, ran⟩ : ∃ next, run metadata table.map selector (first + count) walk =
        .walking next := by
      apply exists_walking_of_isSome
      rw [again, found]
      rfl
    have position_eq := positionAfter_of_run_eq_walking ran
    rw [again, found] at position_eq
    cases position_eq
    exact long _ next (by omega) (by omega) ran
  have earlier_plain : Text.Plain earlier.pending := plain_positionAfter plain reached
  have later_position : later.position = ⟨earlier.owner, later.pending⟩ :=
    congrArg (Position.mk · later.pending) owner_eq
  rw [later_position] at turned
  have endless := isSome_positionAfter_of_turn turn.succ_pos earlier_plain turned window_eq
    long_positions steps
  obtain ⟨next, ran⟩ : ∃ next, run metadata table.map selector (first + steps) walk =
      .walking next := by
    apply exists_walking_of_isSome
    rw [again]
    exact endless
  exact exists_walking_of_le (Nat.le_add_left steps first) ran

/-! ## Walks that do not end -/

/-- A sequence of numbers is infinitely often at most as large as ever after. -/
theorem infinite_setOf_le_after (height : Nat → Nat) :
    {low | ∀ later, low ≤ later → height low ≤ height later}.Infinite := by
  apply Set.infinite_of_forall_exists_gt
  intro before
  have nonempty : (Set.Ioi before).Nonempty := ⟨before + 1, Nat.lt_succ_self before⟩
  refine ⟨Function.argminOn height (Set.Ioi before) nonempty, ?_,
    Function.argminOn_mem height (Set.Ioi before) nonempty⟩
  intro later le
  exact Function.argminOn_le height (Set.Ioi before)
    (lt_of_lt_of_le (Function.argminOn_mem height (Set.Ioi before) nonempty) le)

theorem finite_setOf_lists (alphabet : List String) (length : Nat) :
    {list : List String | list.length ≤ length ∧ ∀ segment ∈ list, segment ∈ alphabet}.Finite := by
  refine ((List.finite_length_le {segment // segment ∈ alphabet} length).image
    (List.map Subtype.val)).subset ?_
  rintro list ⟨short, within⟩
  lift list to List {segment // segment ∈ alphabet} using within
  exact ⟨list, by simpa using short, rfl⟩

/-- The segments that a walk can come across. -/
def alphabet (table : AliasTable) (pending : List String) : List String :=
  pending ++ table.pairs.flatMap fun pair => Text.segments pair.2

theorem mem_alphabet_of_advance {start : List String} {position next : Position}
    (within : ∀ segment ∈ position.pending, segment ∈ alphabet table start)
    (advanced : advance metadata table.map position = some next) :
    ∀ segment ∈ next.pending, segment ∈ alphabet table start := by
  rcases advance_eq_some_iff.mp advanced with ⟨first, expanded, -, -⟩
  intro segment member
  have member_expanded : segment ∈ expand table.map position.owner position.pending := by
    rw [expanded]
    exact List.mem_cons_of_mem _ member
  rcases expand_cases table.map position.owner position.pending with
    unchanged | ⟨length, path, -, mapped, replaced⟩
  · rw [unchanged] at member_expanded
    exact within segment member_expanded
  · rw [replaced, List.mem_append] at member_expanded
    rcases member_expanded with new | old
    · apply List.mem_append_right
      exact List.mem_flatMap.mpr ⟨_, AliasTable.mem_pairs_of_map_eq_some mapped, new⟩
    · exact within segment (List.mem_of_mem_drop old)

/-- Without an alias a step leaves fewer segments. -/
theorem mem_entities_of_advance {position next : Position}
    (advanced : advance metadata table.map position = some next)
    (long : position.pending.length ≤ next.pending.length) :
    position.owner ∈ table.entities := by
  rcases advance_eq_some_iff.mp advanced with ⟨first, expanded, -, -⟩
  rcases expand_cases table.map position.owner position.pending with
    unchanged | ⟨length, path, -, mapped, -⟩
  · rw [unchanged] at expanded
    rw [expanded, List.length_cons] at long
    omega
  · exact AliasTable.mem_entities_of_map_eq_some mapped

/-- Endless positions recur: infinitely many of them are at most as long as all later ones, an
alias is replaced at each of these, and only finitely many types and windows occur there. -/
theorem exists_turn_of_endless {positions : Nat → Position}
    (advances : ∀ count,
      advance metadata table.map (positions count) = some (positions (count + 1))) :
    ∃ first last, first < last ∧ (positions last).owner = (positions first).owner ∧
      (positions last).pending.take table.width = (positions first).pending.take table.width ∧
      ∀ count, first ≤ count →
        (positions first).pending.length ≤ (positions count).pending.length := by
  let lows : Set Nat :=
    {low | ∀ later, low ≤ later →
      (positions low).pending.length ≤ (positions later).pending.length}
  have infinite : lows.Infinite :=
    infinite_setOf_le_after fun count => (positions count).pending.length
  have within (count : Nat) : ∀ segment ∈ (positions count).pending,
      segment ∈ alphabet table (positions 0).pending := by
    induction count with
    | zero => exact fun segment member => List.mem_append_left _ member
    | succ count ih => exact mem_alphabet_of_advance ih (advances count)
  let view (count : Nat) : EntityId × List String :=
    ((positions count).owner, (positions count).pending.take table.width)
  let views : Set (EntityId × List String) :=
    {entity | entity ∈ table.entities} ×ˢ
      {list | list.length ≤ table.width ∧
        ∀ segment ∈ list, segment ∈ alphabet table (positions 0).pending}
  have finite : views.Finite := (List.finite_toSet _).prod (finite_setOf_lists _ _)
  have seen : Set.MapsTo view lows views := by
    intro count low
    constructor
    · exact mem_entities_of_advance (advances count) (low _ (Nat.le_succ count))
    · exact ⟨List.length_take_le _ _,
        fun segment member => within count segment (List.mem_of_mem_take member)⟩
  rcases infinite.exists_lt_map_eq_of_mapsTo seen finite with ⟨first, low, last, -, before, view_eq⟩
  rcases Prod.mk.inj view_eq with ⟨owner_eq, window_eq⟩
  exact ⟨first, last, before, owner_eq.symm, window_eq.symm, low⟩

/-- A walk that never ends recurs. -/
theorem recurs_of_endless
    (endless : ∀ steps, ∃ next, run metadata table.map selector steps walk = .walking next) :
    Recurs metadata table selector walk := by
  choose walks walks_eq using endless
  have advances (count : Nat) :
      advance metadata table.map (walks count).position = some (walks (count + 1)).position := by
    have reached := positionAfter_of_run_eq_walking (walks_eq count)
    have reached_next := positionAfter_of_run_eq_walking (walks_eq (count + 1))
    rwa [positionAfter, reached, Option.bind_some] at reached_next
  rcases exists_turn_of_endless advances with ⟨first, last, before, owner_eq, window_eq, long⟩
  refine ⟨first, last, walks first, walks last, before, walks_eq first, walks_eq last, owner_eq,
    window_eq, ?_⟩
  intro steps between le _ ran
  cases (walks_eq steps).symm.trans ran
  exact long steps le

/-! ## Tables without recurrences -/

/-- Aliases that stand for no more segments than they have leave fewer segments at each step. -/
theorem length_lt_of_advance {position next : Position}
    (shrinks : ∀ pair ∈ table.pairs, (Text.segments pair.2).length ≤ (Text.segments pair.1).length)
    (plain : Text.Plain position.pending)
    (advanced : advance metadata table.map position = some next) :
    next.pending.length < position.pending.length := by
  rcases advance_eq_some_iff.mp advanced with ⟨segment, expanded, -, -⟩
  have expanded_length := congrArg List.length expanded
  rw [List.length_cons] at expanded_length
  rcases expand_cases table.map position.owner position.pending with
    unchanged | ⟨length, path, inside, mapped, replaced⟩
  · rw [unchanged] at expanded_length
    omega
  · have path_length := shrinks _ (AliasTable.mem_pairs_of_map_eq_some mapped)
    dsimp only at path_length
    rw [length_segments_dotted_take plain inside] at path_length
    rw [replaced, List.length_append, List.length_drop] at expanded_length
    omega

/-- With such aliases no walk recurs. -/
theorem not_recurs_of_length_le
    (shrinks : ∀ pair ∈ table.pairs, (Text.segments pair.2).length ≤ (Text.segments pair.1).length)
    (plain : Text.Plain walk.pending) : ¬ Recurs metadata table selector walk := by
  rintro ⟨first, last, earlier, later, before, earlier_eq, later_eq, -, -, long⟩
  rcases exists_walking_of_le (Nat.succ_le_of_lt before) later_eq with ⟨next, next_eq⟩
  have reached := positionAfter_of_run_eq_walking earlier_eq
  have advanced := positionAfter_of_run_eq_walking next_eq
  rw [Nat.succ_eq_add_one, positionAfter, reached, Option.bind_some] at advanced
  have shorter := length_lt_of_advance shrinks (plain_positionAfter plain reached) advanced
  have longer := long (first + 1) next (Nat.le_succ first) before next_eq
  exact absurd longer (Nat.not_le_of_lt shorter)

/-! ## Resolution -/

/-- What a walk starts with holds no dots. -/
theorem plain_pending_of_start {query : Query} {origin : Origin}
    (h : start metadata query origin selector = .walking walk) : Text.Plain walk.pending := by
  have plain := Text.plain_segments selector
  rcases start_cases metadata query origin selector with
    ⟨label, rest, join, -, segments, -, started⟩ | started
  · rw [segments] at plain
    rw [started] at h
    unfold startAtJoin at h
    split at h
    · cases h
    · cases h
      exact plain.of_cons
    · cases h
  · rw [started] at h
    cases h
    exact plain

/-- A selector is resolved, with success or an error, exactly if its walk does not recur. -/
theorem resolve_stops_iff (metadata : Metadata) (table : AliasTable) (query : Query)
    (origin : Origin) (selector : String) :
    (∃ steps outcome last,
        resolve metadata table.map steps query origin selector = .stopped outcome last) ↔
      ∀ walk, start metadata query origin selector = .walking walk →
        ¬ Recurs metadata table selector walk := by
  constructor
  · rintro ⟨steps, outcome, last, stopped⟩ walk started recurs
    rw [resolve, started] at stopped
    obtain ⟨next, ran⟩ :=
      recurs.exists_walking (plain_pending_of_start started) (walk.pending.length + steps)
    cases ran.symm.trans stopped
  · intro settles
    cases started : start metadata query origin selector with
    | stopped outcome last => exact ⟨0, outcome, last, by rw [resolve, started]⟩
    | walking walk =>
        by_contra unstopped
        apply settles walk started
        apply recurs_of_endless
        intro steps
        cases ran : run metadata table.map selector steps walk with
        | walking next => exact ⟨next, rfl⟩
        | stopped outcome last =>
            refine absurd ⟨steps, outcome, last, ?_⟩ unstopped
            rw [resolve, started]
            dsimp only
            rw [Nat.add_comm]
            exact run_add_of_stopped metadata ran _

/-- Employees with a name and a manager. -/
def hierarchy : Schema :=
  [(⟨1⟩, { name := "Employee", identifier := some "name",
           properties := [("name", .attribute .text), ("manager", .association ⟨1⟩ .single)] })]

def climbing : AliasTable := AliasTable.empty.add ⟨1⟩ "manager" "manager.manager.manager"

/-- A walk that replaces the manager by the manager's manager's manager never ends. -/
theorem not_exists_stopped_hierarchy :
    ¬ ∃ steps outcome last,
      resolve hierarchy.metadata climbing.map steps (.select ⟨1⟩) (.root ⟨1⟩) "manager.name" =
        .stopped outcome last := by
  rintro ⟨steps, outcome, last, stopped⟩
  let walk : Walk :=
    { context := .root, owner := ⟨1⟩, embedded := [], pending := ["manager", "name"],
      query := .select ⟨1⟩ }
  have recurs : Recurs hierarchy.metadata climbing "manager.name" walk := by
    refine ⟨0, 1, _, _, Nat.one_pos, rfl, rfl, rfl, by decide +kernel, ?_⟩
    intro count between _ le ran
    obtain rfl | rfl : count = 0 ∨ count = 1 := by omega
    · cases ran
      exact Nat.le_refl _
    · cases ran
      decide
  have plain : Text.Plain walk.pending := Text.plain_segments "manager.name"
  rcases recurs.exists_walking plain (walk.pending.length + steps) with ⟨next, ran⟩
  cases ran.symm.trans stopped

end FilterQuery.Selector
