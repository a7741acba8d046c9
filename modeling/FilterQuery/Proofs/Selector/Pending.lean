import FilterQuery.Proofs.Selector.Termination

/-!
# Segments do not run out

A walk under way has segments left, and none of them holds a dot.  Aliases keep this, whatever they
stand for: even the empty path has a segment.  So the answers for a walk without segments, and
for an association path without a last segment, are never given, and could be any others.
-/

namespace FilterQuery

namespace Selector

variable {metadata : Metadata} {mapper : Mapper} {selector : String} {query : Query}
  {origin : Origin} {walk : Walk}

/-! ## Supplied walks -/

/-- A walk with segments left, none of which holds a dot. -/
structure Walk.Supplied (walk : Walk) : Prop where
  pending_ne : walk.pending ≠ []
  plain : Text.Plain walk.pending

theorem Walk.Supplied.expand_ne (supplied : walk.Supplied) (mapper : Mapper) :
    expand mapper walk.owner walk.pending ≠ [] :=
  expand_ne_nil mapper walk.owner supplied.pending_ne

theorem Walk.Supplied.plain_expand (supplied : walk.Supplied) (mapper : Mapper) :
    Text.Plain (expand mapper walk.owner walk.pending) :=
  Selector.plain_expand supplied.plain

/-- A walk that goes on has dropped the first segment of an expansion, and not the last one. -/
theorem Walk.Supplied.move (supplied : walk.Supplied) {progress : Progress}
    (move : Move metadata mapper selector walk progress) :
    progress.Holds Walk.Supplied fun _ _ => True := by
  have plain := supplied.plain_expand mapper
  cases move with
  | enter segments more _ =>
      rw [segments] at plain
      exact ⟨more, plain.of_cons⟩
  | follow segments more _ =>
      rw [segments] at plain
      exact ⟨more, plain.of_cons⟩
  | exhausted | unknown | value | composite | reference | whole | behind | element => trivial

/-- A walk starts supplied: it has all segments of the selector, or those behind the alias of a join
if there are any. -/
theorem supplied_of_start (started : start metadata query origin selector = .walking walk) :
    walk.Supplied := by
  refine ⟨?_, plain_pending_of_start started⟩
  rcases start_cases metadata query origin selector with
    ⟨label, rest, join, -, -, -, start_eq⟩ | start_eq
  · rw [start_eq] at started
    cases target_eq : join.target with
    | elements type =>
        simp only [startAtJoin, target_eq] at started
        cases started
    | entity target =>
        cases rest with
        | nil =>
            simp only [startAtJoin, target_eq] at started
            cases started
        | cons next rest =>
            simp only [startAtJoin, target_eq] at started
            cases started
            exact List.cons_ne_nil next rest
  · rw [start_eq] at started
    cases started
    exact Text.segments_ne_nil selector

/-- It stays supplied for as long as it goes on. -/
theorem Walk.Supplied.run (supplied : walk.Supplied) {steps : Nat} {next : Walk}
    (ran : run metadata mapper selector steps walk = .walking next) : next.Supplied := by
  have holds : (Selector.run metadata mapper selector steps walk).Holds Walk.Supplied
      fun _ _ => True :=
    run_holds (fun _ _ supplied move => supplied.move move) steps supplied
  rw [ran] at holds
  exact holds

/-! ## Other answers -/

/-- Takes one segment, with an answer of one's own if there is none. -/
def stepOr (exhausted : Walk → Progress) (metadata : Metadata) (mapper : Mapper)
    (selector : String) (walk : Walk) : Progress :=
  match expand mapper walk.owner walk.pending with
  | [] => exhausted walk
  | _ :: _ => step metadata mapper selector walk

/-- Takes at most the given number of steps. -/
def runOr (exhausted : Walk → Progress) (metadata : Metadata) (mapper : Mapper)
    (selector : String) : Nat → Walk → Progress
  | 0, walk => .walking walk
  | steps + 1, walk =>
      match stepOr exhausted metadata mapper selector walk with
      | .walking next => runOr exhausted metadata mapper selector steps next
      | .stopped outcome query => .stopped outcome query

/-- Walks a selector from an origin, with an answer of one's own if no segments are left. -/
def resolveOr (exhausted : Walk → Progress) (metadata : Metadata) (mapper : Mapper) (steps : Nat)
    (query : Query) (origin : Origin) (selector : String) : Progress :=
  match start metadata query origin selector with
  | .walking walk => runOr exhausted metadata mapper selector (walk.pending.length + steps) walk
  | .stopped outcome query => .stopped outcome query

/-- A step has its own answer for a walk without segments. -/
theorem step_eq_stepOr (metadata : Metadata) (mapper : Mapper) (selector : String) :
    step metadata mapper selector =
      stepOr
        (fun walk => .stopped (.error (.unknownProperty selector (metadata.displayName walk.owner)))
          walk.query)
        metadata mapper selector := by
  funext walk
  cases expanded : expand mapper walk.owner walk.pending with
  | nil => simp only [stepOr, step, expanded]
  | cons segment rest => simp only [stepOr, expanded]

/-- Where there are segments, the answer for a walk without any does not matter. -/
theorem stepOr_congr (segments : expand mapper walk.owner walk.pending ≠ [])
    (exhausted other : Walk → Progress) :
    stepOr exhausted metadata mapper selector walk = stepOr other metadata mapper selector walk := by
  unfold stepOr
  split
  · rename_i noSegments
    exact absurd noSegments segments
  · rfl

theorem Walk.Supplied.runOr_eq (supplied : walk.Supplied) (exhausted : Walk → Progress)
    (steps : Nat) :
    runOr exhausted metadata mapper selector steps walk =
      Selector.run metadata mapper selector steps walk := by
  induction steps generalizing walk with
  | zero => rfl
  | succ steps ih =>
      have step_eq : stepOr exhausted metadata mapper selector walk =
          step metadata mapper selector walk := by
        rw [step_eq_stepOr]
        exact stepOr_congr (supplied.expand_ne mapper) _ _
      have kept := supplied.move (move_step metadata mapper selector walk)
      rw [runOr, Selector.run, step_eq]
      cases stepped : step metadata mapper selector walk with
      | walking next =>
          rw [stepped] at kept
          exact ih kept
      | stopped outcome query => rfl

theorem resolveOr_eq (exhausted : Walk → Progress) (metadata : Metadata) (mapper : Mapper)
    (steps : Nat) (query : Query) (origin : Origin) (selector : String) :
    resolveOr exhausted metadata mapper steps query origin selector =
      resolve metadata mapper steps query origin selector := by
  unfold resolveOr resolve
  cases started : start metadata query origin selector with
  | walking walk => exact (supplied_of_start started).runOr_eq exhausted _
  | stopped outcome query => rfl

end Selector

/-! ## Association paths -/

namespace Query

/-- Joins an association of a context, with an answer of one's own if its path leads to nothing
without being at fault anywhere. -/
def joinOr (unset : Except CompileError (JoinId × Query)) (query : Query) (metadata : Metadata)
    (parent : Context) (association : String) (kind : JoinKind) (label : Option String) :
    Except CompileError (JoinId × Query) := do
  let some owner := query.entityOf parent
    | .error (.unknownProperty association parent.display)
  let some target ← associationTarget metadata owner (Text.segments association) | unset
  let (id, query) := query.ensureJoin parent association target
  .ok (id, query.establish id kind label)

/-- An association path is at fault somewhere, or leads to what can be joined. -/
theorem associationTarget_segments (metadata : Metadata) (owner : EntityId) (association : String) :
    (∃ error, associationTarget metadata owner (Text.segments association) = .error error) ∨
      ∃ target, associationTarget metadata owner (Text.segments association) =
        .ok (some target) := by
  have leads := associationTarget_ne_none metadata owner (Text.segments_ne_nil association)
  cases found : associationTarget metadata owner (Text.segments association) with
  | error error => exact .inl ⟨error, rfl⟩
  | ok target? =>
      cases target? with
      | none => exact absurd found leads
      | some target => exact .inr ⟨target, rfl⟩

theorem joinOr_eq (unset : Except CompileError (JoinId × Query)) (query : Query)
    (metadata : Metadata) (parent : Context) (association : String) (kind : JoinKind)
    (label : Option String) :
    query.joinOr unset metadata parent association kind label =
      query.join metadata parent association kind label := by
  unfold joinOr join
  cases query.entityOf parent with
  | none => rfl
  | some owner =>
      rcases associationTarget_segments metadata owner association with
        ⟨error, found⟩ | ⟨target, found⟩
      · simp only [found]
        rfl
      · simp only [found]
        rfl

end Query

/-! ## Segments never run out -/

namespace Selector

/-- Every walk that comes from a selector has segments left, in front of an expansion and behind
it, and none of them holds a dot; every association path is at fault or leads somewhere.  So
neither resolving a selector nor making a join ever gives the answer for a path that has run
out. -/
theorem segments_never_run_out (metadata : Metadata) (mapper : Mapper) (query : Query) :
    (∀ (origin : Origin) (selector : String) (walk next : Walk) (steps : Nat),
      start metadata query origin selector = .walking walk →
      run metadata mapper selector steps walk = .walking next →
        (next.pending ≠ [] ∧ Text.Plain next.pending) ∧
        expand mapper next.owner next.pending ≠ [] ∧
        Text.Plain (expand mapper next.owner next.pending)) ∧
    (∀ (origin : Origin) (selector : String) (steps : Nat) (exhausted : Walk → Progress),
      resolveOr exhausted metadata mapper steps query origin selector =
        resolve metadata mapper steps query origin selector) ∧
    (∀ (owner : EntityId) (association : String),
      (∃ error, Query.associationTarget metadata owner (Text.segments association) =
        .error error) ∨
      ∃ target, Query.associationTarget metadata owner (Text.segments association) =
        .ok (some target)) ∧
    ∀ (parent : Context) (association : String) (kind : JoinKind) (label : Option String)
      (unset : Except CompileError (JoinId × Query)),
      query.joinOr unset metadata parent association kind label =
        query.join metadata parent association kind label := by
  refine ⟨?walks, ?resolution, ?paths, ?joins⟩
  case walks =>
    intro origin selector walk next steps started ran
    have supplied := (supplied_of_start started).run ran
    exact ⟨⟨supplied.pending_ne, supplied.plain⟩, supplied.expand_ne mapper,
      supplied.plain_expand mapper⟩
  case resolution =>
    intro origin selector steps exhausted
    exact resolveOr_eq exhausted metadata mapper steps query origin selector
  case paths => exact Query.associationTarget_segments metadata
  case joins =>
    intro parent association kind label unset
    exact Query.joinOr_eq unset query metadata parent association kind label

/-- An alias for a path of dots and a manager is replaced behind the manager of an employee. -/
theorem segments_never_run_out_hierarchy :
    let mapper : Mapper := fun _ name => if name = "chief" then some ".manager." else none
    let query : Query := .select ⟨1⟩
    ∃ walk next,
      start hierarchy.metadata query (.root ⟨1⟩) "manager.chief" = .walking walk ∧
      run hierarchy.metadata mapper "manager.chief" 1 walk = .walking next ∧
      next.pending = ["chief"] ∧ expand mapper next.owner next.pending = ["", "manager", ""] ∧
      (next.pending ≠ [] ∧ Text.Plain next.pending) ∧
      expand mapper next.owner next.pending ≠ [] ∧
      Text.Plain (expand mapper next.owner next.pending) := by
  intro mapper query
  let walk : Walk :=
    { context := .root, owner := ⟨1⟩, embedded := [], pending := ["manager", "chief"], query }
  let next : Walk :=
    { context := .join 0, owner := ⟨1⟩, embedded := [], pending := ["chief"],
      query := (query.ensureJoin .root "manager" (.entity ⟨1⟩)).2 }
  have started : start hierarchy.metadata query (.root ⟨1⟩) "manager.chief" = .walking walk := rfl
  have ran : run hierarchy.metadata mapper "manager.chief" 1 walk = .walking next := rfl
  obtain ⟨walks, -⟩ := segments_never_run_out hierarchy.metadata mapper query
  exact ⟨walk, next, started, ran, rfl, by decide +kernel,
    walks (.root ⟨1⟩) "manager.chief" walk next 1 started ran⟩

end Selector

end FilterQuery
