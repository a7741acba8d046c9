import FilterQuery.Proofs.Query.Routes
import FilterQuery.Proofs.Selector.Soundness

/-!
# Walks on any query

Of its query a walk needs only that the joins are numbered and that it starts at a context
which is there, whatever the joins lead to.  It makes plain joins below contexts that are
there, and an attribute that it ends at belongs to a context that is there.
-/

namespace FilterQuery.Selector

variable {metadata : Metadata} {mapper : Mapper} {selector : String} {before query : Query}
  {walk : Walk}

/-- A walk at a context of its query, which has grown from another one and has its joins
numbered. -/
structure Walk.Grounded (before : Query) (walk : Walk) : Prop where
  numbered : walk.query.Numbered
  grown : before.Extends walk.query
  has : walk.query.Has walk.context

/-- The end of such a walk; an attribute belongs to a context of the query. -/
structure EndedGrounded (before : Query) (outcome : Except CompileError Attribute)
    (query : Query) : Prop where
  numbered : query.Numbered
  grown : before.Extends query
  has : ∀ leaf, outcome = .ok leaf → query.Has leaf.path.root

/-- An outcome at a path, if it is a success, belongs to the context of the path. -/
theorem EndedGrounded.of_path {outcome : Except CompileError Attribute} {path : AttributePath}
    (numbered : query.Numbered) (grown : before.Extends query) (has : query.Has path.root)
    (path_eq : ∀ leaf, outcome = .ok leaf → leaf.path = path) :
    EndedGrounded before outcome query :=
  ⟨numbered, grown, fun leaf found => by rw [path_eq leaf found]; exact has⟩

theorem Walk.Grounded.joinAt (grounded : walk.Grounded before) (segment : String)
    (target : JoinTarget) :
    (walk.joinAt segment target).2.Numbered ∧ before.Extends (walk.joinAt segment target).2 ∧
      (walk.joinAt segment target).2.Has (.join (walk.joinAt segment target).1) :=
  ⟨grounded.numbered.ensureJoin grounded.has _ _,
    grounded.grown.trans (Query.extends_ensureJoin _ _ _ _),
    grounded.numbered.has_ensureJoin _ _ _⟩

/-- Every turn keeps a walk grounded. -/
theorem Walk.Grounded.move (grounded : walk.Grounded before) {progress : Progress}
    (move : Move metadata mapper selector walk progress) :
    progress.Holds (Walk.Grounded before) (EndedGrounded before) := by
  have failed (error : CompileError) : EndedGrounded before (.error error) walk.query :=
    ⟨grounded.numbered, grounded.grown, fun _ found => nomatch found⟩
  cases move with
  | exhausted _ => exact failed _
  | unknown _ _ => exact failed _
  | behind _ _ => exact failed _
  | value _ _ =>
      exact .of_path grounded.numbered grounded.grown grounded.has
        fun _ found => (eq_of_valueOutcome_eq_ok found).2.1
  | composite _ _ => exact ⟨grounded.numbered, grounded.grown, by rintro _ ⟨⟩; exact grounded.has⟩
  | reference _ _ =>
      exact .of_path grounded.numbered grounded.grown grounded.has
        fun _ found => (eq_of_entityOutcome_eq_ok found).1
  | enter _ _ _ => exact ⟨grounded.numbered, grounded.grown, grounded.has⟩
  | @whole segment target _ _ =>
      rcases grounded.joinAt segment (.entity target) with ⟨numbered, grown, has⟩
      exact .of_path numbered grown has fun _ found => (eq_of_entityOutcome_eq_ok found).1
  | @follow segment _ target _ _ _ _ =>
      rcases grounded.joinAt segment (.entity target) with ⟨numbered, grown, has⟩
      exact ⟨numbered, grown, has⟩
  | @element segment type _ _ =>
      rcases grounded.joinAt segment (.elements type) with ⟨numbered, grown, has⟩
      exact ⟨numbered, grown, by rintro _ ⟨⟩; exact has⟩

/-- A walk starts grounded. -/
theorem start_grounded (numbered : query.Numbered) {origin : Origin}
    (has : query.Has origin.context) (selector : String) :
    (start metadata query origin selector).Holds (Walk.Grounded query) (EndedGrounded query) := by
  rcases start_cases metadata query origin selector with
    ⟨label, rest, join, -, -, labeled, start_eq⟩ | start_eq
  · have join_eq := numbered.getElem?_of_joinLabeled? labeled
    have here : query.Has (.join join.id) := (List.getElem?_eq_some_iff.mp join_eq).1
    rw [start_eq]
    unfold startAtJoin
    cases join.target with
    | elements type =>
        exact .of_path numbered (.refl query) here
          fun _ found => (eq_of_valueOutcome_eq_ok found).2.1
    | entity target =>
        cases rest with
        | nil =>
            exact .of_path numbered (.refl query) here
              fun _ found => (eq_of_entityOutcome_eq_ok found).1
        | cons next rest => exact ⟨numbered, .refl query, here⟩
  · rw [start_eq]
    exact ⟨numbered, .refl query, has⟩

/-- A walk from a context of a query, for any number of steps, keeps its joins numbered and only
adds plain ones. -/
theorem resolve_grounded (numbered : query.Numbered) {origin : Origin}
    (has : query.Has origin.context) (mapper : Mapper) (steps : Nat) (selector : String) :
    (resolve metadata mapper steps query origin selector).Holds (Walk.Grounded query)
      (EndedGrounded query) := by
  have started : (start metadata query origin selector).Holds (Walk.Grounded query)
      (EndedGrounded query) := start_grounded numbered has selector
  unfold resolve
  split
  · rename_i walk start_eq
    rw [start_eq] at started
    exact run_holds (fun _ _ grounded move => grounded.move move) _ started
  · rename_i outcome query start_eq
    rw [start_eq] at started
    exact started

end FilterQuery.Selector
