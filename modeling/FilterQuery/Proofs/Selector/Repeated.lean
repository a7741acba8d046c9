import FilterQuery.Proofs.Query.Joined
import FilterQuery.Proofs.Selector.Moves

/-!
# Walking a selector again

A walk looks each join that it needs up by its parent and its path, and makes it only if it is not
there.  So a query that comes out of a walk has all that the walk needs: where the selector is
walked again, it takes the same turns to the same end and leaves the query as it is.
-/

namespace FilterQuery

/-! ## Joins that are found again -/

namespace Query

variable {query next last : Query}

/-- A query whose joins are found in another one by the same keys, and those of aliases by the same
aliases. -/
structure Persists (query next : Query) : Prop where
  get?_index : ∀ {key : Context × String} {id : JoinId},
    query.index.get? key = some id → next.index.get? key = some id
  joinLabeled?_eq : ∀ label, next.joinLabeled? label = query.joinLabeled? label

theorem Persists.refl (query : Query) : query.Persists query :=
  ⟨id, fun _ => rfl⟩

theorem Persists.trans (first : query.Persists next) (second : next.Persists last) :
    query.Persists last :=
  ⟨fun found => second.get?_index (first.get?_index found),
    fun label => (second.joinLabeled?_eq label).trans (first.joinLabeled?_eq label)⟩

theorem persists_ensureJoin (query : Query) (parent : Context) (path : String)
    (target : JoinTarget) : query.Persists (query.ensureJoin parent path target).2 := by
  refine ⟨?_, (extends_ensureJoin query parent path target).continues.joinLabeled?_eq⟩
  intro key id found
  cases absent : query.index.get? (parent, path) with
  | some other => rwa [ensureJoin_of_get?_eq_some absent]
  | none =>
      have key_ne : (parent, path) ≠ key := by
        rintro rfl
        rw [absent] at found
        cases found
      simpa [ensureJoin, absent, Keyed.get?_put_of_ne key_ne] using found

theorem get?_index_ensureJoin (query : Query) (parent : Context) (path : String)
    (target : JoinTarget) :
    (query.ensureJoin parent path target).2.index.get? (parent, path) =
      some (query.ensureJoin parent path target).1 := by
  cases found : query.index.get? (parent, path) with
  | some id => rw [ensureJoin_of_get?_eq_some found, found]
  | none => simp [ensureJoin, found]

/-- A join that has been made is found wherever it persists. -/
theorem Persists.ensureJoin_eq {parent : Context} {path : String} {target : JoinTarget}
    (persists : (query.ensureJoin parent path target).2.Persists last) :
    last.ensureJoin parent path target = ((query.ensureJoin parent path target).1, last) :=
  ensureJoin_of_get?_eq_some
    (persists.get?_index (query.get?_index_ensureJoin parent path target)) target

end Query

/-! ## Walks that are repeated -/

namespace Selector

variable {metadata : Metadata} {mapper : Mapper} {selector : String} {walk : Walk} {last : Query}

/-- The query that a walk has come to. -/
def Progress.query : Progress → Query
  | .walking walk => walk.query
  | .stopped _ query => query

/-- The same progress over another query. -/
def Progress.withQuery (last : Query) : Progress → Progress
  | .walking walk => .walking { walk with query := last }
  | .stopped outcome _ => .stopped outcome last

theorem persists_step (metadata : Metadata) (mapper : Mapper) (selector : String) (walk : Walk) :
    walk.query.Persists (step metadata mapper selector walk).query := by
  have move := move_step metadata mapper selector walk
  generalize step metadata mapper selector walk = progress at move ⊢
  cases move with
  | whole | follow | element => exact Query.persists_ensureJoin _ _ _ _
  | _ => exact .refl _

/-- The join that a step has made is found where it persists. -/
theorem Walk.ensureJoin_eq {segment : String} {target : JoinTarget}
    (persists : (walk.joinAt segment target).2.Persists last) :
    last.ensureJoin walk.context (Text.dotted (walk.embedded ++ [segment])) target =
      ((walk.joinAt segment target).1, last) :=
  persists.ensureJoin_eq

/-- A step takes the same turn wherever its joins persist, and makes none there. -/
theorem step_withQuery (persists : (step metadata mapper selector walk).query.Persists last) :
    step metadata mapper selector { walk with query := last } =
      (step metadata mapper selector walk).withQuery last := by
  have move := move_step metadata mapper selector walk
  generalize step metadata mapper selector walk = progress at move persists ⊢
  unfold step
  dsimp only
  cases move with
  | exhausted segments => rw [segments]; rfl
  | unknown segments property | value segments property | composite segments property
  | reference segments property | behind segments property =>
      rw [segments]
      dsimp only
      rw [property]
      rfl
  | enter segments more property =>
      obtain ⟨next, others, rfl⟩ := List.exists_cons_of_ne_nil more
      rw [segments]
      dsimp only
      rw [property]
      rfl
  | whole segments property =>
      rw [segments]
      dsimp only [stepAssociation]
      rw [property]
      dsimp only [stepAssociation]
      rw [Walk.ensureJoin_eq persists]
      rfl
  | follow segments more property =>
      obtain ⟨next, others, rfl⟩ := List.exists_cons_of_ne_nil more
      rw [segments]
      dsimp only
      rw [property]
      dsimp only [stepAssociation]
      rw [Walk.ensureJoin_eq persists]
      rfl
  | element segments property =>
      rw [segments]
      dsimp only
      rw [property]
      dsimp only [stepElements]
      rw [Walk.ensureJoin_eq persists]
      rfl

theorem persists_run (metadata : Metadata) (mapper : Mapper) (selector : String) (steps : Nat)
    (walk : Walk) : walk.query.Persists (run metadata mapper selector steps walk).query := by
  induction steps generalizing walk with
  | zero => exact .refl walk.query
  | succ steps ih =>
      have first := persists_step metadata mapper selector walk
      rw [run]
      split
      · rename_i next step_eq
        rw [step_eq] at first
        exact first.trans (ih next)
      · rename_i outcome query step_eq
        rwa [step_eq] at first

/-- A run takes the same turns wherever its joins persist. -/
theorem run_withQuery {steps : Nat}
    (persists : (run metadata mapper selector steps walk).query.Persists last) :
    run metadata mapper selector steps { walk with query := last } =
      (run metadata mapper selector steps walk).withQuery last := by
  induction steps generalizing walk with
  | zero => rfl
  | succ steps ih =>
      rw [run] at persists
      rw [run, run]
      cases step_eq : step metadata mapper selector walk with
      | walking next =>
          rw [step_eq] at persists
          have made := (persists_run metadata mapper selector steps next).trans persists
          rw [step_withQuery (by rwa [step_eq]), step_eq]
          exact ih persists
      | stopped outcome query =>
          rw [step_eq] at persists
          rw [step_withQuery (by rwa [step_eq]), step_eq]
          rfl

theorem start_withQuery {query : Query} (persists : query.Persists last) (origin : Origin)
    (selector : String) :
    start metadata last origin selector =
      (start metadata query origin selector).withQuery last := by
  have join?_eq : (Text.segments selector).head?.bind last.joinLabeled? =
      (Text.segments selector).head?.bind query.joinLabeled? := by
    rw [funext persists.joinLabeled?_eq]
  unfold start
  dsimp only
  rw [join?_eq]
  split
  · unfold startAtJoin
    dsimp only
    split <;> rfl
  · rfl

theorem query_start (metadata : Metadata) (query : Query) (origin : Origin) (selector : String) :
    (start metadata query origin selector).query = query := by
  unfold start startAtJoin
  dsimp only
  split
  · split <;> rfl
  · rfl

/-- The query that a selector leaves behind has the joins of the one that it was walked on. -/
theorem persists_of_resolve {steps : Nat} {query next : Query} {origin : Origin}
    {outcome : Except CompileError Attribute}
    (h : resolve metadata mapper steps query origin selector = .stopped outcome next) :
    query.Persists next := by
  have query_eq := query_start metadata query origin selector
  unfold resolve at h
  cases start_eq : start metadata query origin selector with
  | walking walk =>
      rw [start_eq] at h query_eq
      obtain rfl : walk.query = query := query_eq
      have persists := persists_run metadata mapper selector (walk.pending.length + steps) walk
      have ended : (run metadata mapper selector (walk.pending.length + steps) walk).query =
          next := congrArg Progress.query h
      rwa [ended] at persists
  | stopped first before =>
      rw [start_eq] at h query_eq
      cases h
      obtain rfl : next = query := query_eq
      exact .refl _

/-- A selector comes to the same end wherever the joins that it needs persist, and makes none
there. -/
theorem resolve_of_persists {steps : Nat} {query next : Query} {origin : Origin}
    {outcome : Except CompileError Attribute}
    (h : resolve metadata mapper steps query origin selector = .stopped outcome next)
    (persists : next.Persists last) :
    resolve metadata mapper steps last origin selector = .stopped outcome last := by
  have started : start metadata last origin selector =
      (start metadata query origin selector).withQuery last :=
    start_withQuery ((persists_of_resolve h).trans persists) origin selector
  unfold resolve at h ⊢
  rw [started]
  cases start_eq : start metadata query origin selector with
  | walking walk =>
      rw [start_eq] at h
      have ended : (run metadata mapper selector (walk.pending.length + steps) walk).query =
          next := congrArg Progress.query h
      exact (run_withQuery (ended ▸ persists)).trans (congrArg (Progress.withQuery last) h)
  | stopped first before =>
      rw [start_eq] at h
      cases h
      rfl

end Selector

end FilterQuery
