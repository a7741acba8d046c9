import FilterQuery.Proofs.Selector.Grounded

/-!
# Walks on different queries

A selector is walked the same way on a query and on any query that has further joins without
aliases.  The numbers of the joins that the walk makes depend on the joins that were there before,
but the routes to them do not, nor does the outcome.  So the walk on the query with more joins
retraces the other one: it comes to the same attribute by the same route, or fails with the same
error.
-/

namespace FilterQuery

/-- The way to an attribute, whatever the numbers of the joins on it. -/
structure Way where
  /-- The path from the root to the context. -/
  route : List String
  /-- The path within the context. -/
  segments : List String
  deriving DecidableEq, Repr

/-- The way to an attribute of a query. -/
def Query.way (query : Query) (path : AttributePath) : Way :=
  ⟨query.route path.root, path.segments⟩

/-- An attribute of a query by its way. -/
def Query.sight (query : Query) (leaf : Attribute) : Way × AttributeType :=
  (query.way leaf.path, leaf.type)

/-- What a selector leads to, whatever joins there are on the way. -/
structure Landing where
  /-- The path from the root. -/
  path : List String
  type : AttributeType
  deriving DecidableEq, Repr

/-- An attribute of a query by its route. -/
def Query.landing (query : Query) (leaf : Attribute) : Landing where
  path := query.route leaf.path.root ++ leaf.path.segments
  type := leaf.type

theorem Query.landing_eq_of_sight_eq {query other : Query} {leaf otherLeaf : Attribute}
    (h : query.sight leaf = other.sight otherLeaf) : query.landing leaf = other.landing otherLeaf :=
  congrArg
    (fun sight : Way × AttributeType => Landing.mk (sight.1.route ++ sight.1.segments) sight.2) h

namespace Selector

variable {metadata : Metadata} {mapper : Mapper} {selector : String}
  {gained before aloneBefore query other : Query} {alone walk : Walk}

/-- A walk that is where another one is, by the same route, on a query with the joins of the
other one besides those it had. -/
structure Walk.Retraces (gained : Query) (walk alone : Walk) : Prop where
  owner_eq : walk.owner = alone.owner
  embedded_eq : walk.embedded = alone.embedded
  pending_eq : walk.pending = alone.pending
  route_eq : walk.query.route walk.context = alone.query.route alone.context
  mem_routes_iff : ∀ path, path ∈ routesOf walk.query.joins ↔
    path ∈ routesOf gained.joins ∨ path ∈ routesOf alone.query.joins

/-- Walks that go the same way, or have ended with the same error or at the same attribute. -/
inductive Progress.Retraces (gained : Query) : Progress → Progress → Prop
  | walking {walk alone : Walk} (retraces : walk.Retraces gained alone) :
      Retraces gained (.walking walk) (.walking alone)
  | stopped {outcome aloneOutcome : Except CompileError Attribute} {query alone : Query}
      (sight_eq : outcome.map query.sight = aloneOutcome.map alone.sight)
      (mem_routes_iff : ∀ path, path ∈ routesOf query.joins ↔
        path ∈ routesOf gained.joins ∨ path ∈ routesOf alone.joins) :
      Retraces gained (.stopped outcome query) (.stopped aloneOutcome alone)

/-! ## Outcomes -/

section

variable {path otherPath : AttributePath}
  (route_eq : query.route path.root = other.route otherPath.root)
  (segments_eq : path.segments = otherPath.segments)

include route_eq segments_eq

theorem sight_eq_of_route_eq (name : String) (type : AttributeType) :
    query.sight { path, name, type } = other.sight { path := otherPath, name, type } := by
  simp [Query.sight, Query.way, route_eq, segments_eq]

theorem sight_entityOutcome (name : String) (target : EntityId) :
    (entityOutcome metadata path name target).map query.sight =
      (entityOutcome metadata otherPath name target).map other.sight := by
  unfold entityOutcome
  cases referenceType metadata target with
  | error error => rfl
  | ok type => exact congrArg Except.ok (sight_eq_of_route_eq route_eq segments_eq name type)

theorem sight_valueOutcome (name : String) (type : AttributeType) (rest : List String) :
    (valueOutcome path name type rest).map query.sight =
      (valueOutcome otherPath name type rest).map other.sight := by
  cases rest with
  | nil => exact congrArg Except.ok (sight_eq_of_route_eq route_eq segments_eq name type)
  | cons next rest => rfl

end

/-! ## One step -/

/-- The joins that two walks need for the same segment have the same route. -/
theorem Walk.Retraces.joinAt (retraces : walk.Retraces gained alone)
    (aloneGrounded : alone.Grounded aloneBefore) (grounded : walk.Grounded before)
    (segment : String) (target : JoinTarget) :
    (walk.joinAt segment target).2.route (.join (walk.joinAt segment target).1) =
        (alone.joinAt segment target).2.route (.join (alone.joinAt segment target).1) ∧
      ∀ path, path ∈ routesOf (walk.joinAt segment target).2.joins ↔
        path ∈ routesOf gained.joins ∨ path ∈ routesOf (alone.joinAt segment target).2.joins := by
  have path_eq : walk.pathTo segment = alone.pathTo segment := by
    rw [Walk.pathTo, retraces.embedded_eq, Walk.pathTo]
  unfold Walk.joinAt
  rw [path_eq]
  constructor
  · rw [grounded.numbered.route_ensureJoin grounded.has,
      aloneGrounded.numbered.route_ensureJoin aloneGrounded.has, retraces.route_eq]
  · intro path
    rw [grounded.numbered.mem_routesOf_ensureJoin_iff,
      aloneGrounded.numbered.mem_routesOf_ensureJoin_iff, retraces.mem_routes_iff,
      retraces.route_eq, or_assoc]

/-- Every turn of a walk is retraced. -/
theorem Walk.Retraces.step (retraces : walk.Retraces gained alone)
    (aloneGrounded : alone.Grounded aloneBefore) (grounded : walk.Grounded before) :
    (step metadata mapper selector walk).Retraces gained (step metadata mapper selector alone) := by
  have path_eq (segment : String) : walk.embedded ++ [segment] = alone.pathTo segment := by
    rw [Walk.pathTo, retraces.embedded_eq]
  have move := move_step metadata mapper selector alone
  have segments_eq :
      expand mapper walk.owner walk.pending = expand mapper alone.owner alone.pending := by
    rw [retraces.owner_eq, retraces.pending_eq]
  generalize progress_eq : Selector.step metadata mapper selector alone = progress at move ⊢
  clear progress_eq
  rw [Selector.step, segments_eq, retraces.owner_eq]
  cases move with
  | exhausted segments =>
      simp only [segments]
      exact .stopped rfl retraces.mem_routes_iff
  | unknown segments property =>
      simp only [segments, property]
      exact .stopped rfl retraces.mem_routes_iff
  | value segments property =>
      simp only [segments, property]
      exact .stopped (sight_valueOutcome retraces.route_eq (path_eq _) _ _ _)
        retraces.mem_routes_iff
  | composite segments property =>
      simp only [segments, property]
      exact .stopped (congrArg Except.ok (sight_eq_of_route_eq retraces.route_eq (path_eq _) _ _))
        retraces.mem_routes_iff
  | @enter segment rest inner segments more property =>
      rcases List.exists_cons_of_ne_nil more with ⟨next, others, rfl⟩
      simp only [segments, property]
      exact .walking ⟨rfl, path_eq _, rfl, retraces.route_eq, retraces.mem_routes_iff⟩
  | reference segments property =>
      simp only [segments, property, stepAssociation]
      exact .stopped (sight_entityOutcome retraces.route_eq (path_eq _) _ _)
        retraces.mem_routes_iff
  | @whole segment target segments property =>
      rcases retraces.joinAt aloneGrounded grounded segment (.entity target) with
        ⟨route_eq, mem_routes_iff⟩
      simp only [segments, property, stepAssociation]
      exact .stopped (sight_entityOutcome route_eq (by rfl) _ _) mem_routes_iff
  | @follow segment rest target cardinality segments more property =>
      rcases retraces.joinAt aloneGrounded grounded segment (.entity target) with
        ⟨route_eq, mem_routes_iff⟩
      rcases List.exists_cons_of_ne_nil more with ⟨next, others, rfl⟩
      simp only [segments, property, stepAssociation]
      exact .walking ⟨rfl, rfl, rfl, route_eq, mem_routes_iff⟩
  | behind segments property =>
      simp only [segments, property, stepElements]
      exact .stopped rfl retraces.mem_routes_iff
  | @element segment type segments property =>
      rcases retraces.joinAt aloneGrounded grounded segment (.elements type) with
        ⟨route_eq, mem_routes_iff⟩
      simp only [segments, property, stepElements]
      exact .stopped (congrArg Except.ok (sight_eq_of_route_eq route_eq (by rfl) _ _))
        mem_routes_iff

/-! ## Whole walks -/

/-- A whole walk is retraced. -/
theorem Walk.Retraces.run (retraces : walk.Retraces gained alone)
    (aloneGrounded : alone.Grounded aloneBefore) (grounded : walk.Grounded before)
    (steps : Nat) :
    (run metadata mapper selector steps walk).Retraces gained
      (run metadata mapper selector steps alone) := by
  induction steps generalizing alone walk with
  | zero => exact .walking retraces
  | succ steps ih =>
      have kept := grounded.move (move_step metadata mapper selector walk)
      have aloneKept := aloneGrounded.move (move_step metadata mapper selector alone)
      have next : Progress.Retraces gained (Selector.step metadata mapper selector walk)
          (Selector.step metadata mapper selector alone) := retraces.step aloneGrounded grounded
      rw [Selector.run, Selector.run]
      generalize Selector.step metadata mapper selector walk = progress at kept next ⊢
      generalize Selector.step metadata mapper selector alone = aloneProgress at aloneKept next ⊢
      cases next with
      | walking retraces => exact ih retraces aloneKept kept
      | stopped sight_eq mem_routes_iff => exact .stopped sight_eq mem_routes_iff

section

variable {alone : Query} (aloneNumbered : alone.Numbered) (continues : alone.Continues query)

include aloneNumbered continues

/-- Two walks start at the same join, or at the same origin. -/
theorem start_retraces {origin : Origin} (has : alone.Has origin.context) (selector : String) :
    (start metadata query origin selector).Retraces query
      (start metadata alone origin selector) := by
  have mem_routes_iff (path : List String) : path ∈ routesOf query.joins ↔
      path ∈ routesOf query.joins ∨ path ∈ routesOf alone.joins :=
    ⟨.inl, fun member => member.elim id continues.mem_routesOf⟩
  have labeled_eq : query.joinLabeled? = alone.joinLabeled? := funext continues.joinLabeled?_eq
  unfold start
  dsimp only
  rw [labeled_eq]
  split
  · rename_i join found
    obtain ⟨label, labeled⟩ : ∃ label, alone.joinLabeled? label = some join := by
      split at found
      · exact (Option.bind_eq_some_iff.mp found).imp fun _ both => both.2
      · cases found
    have here : alone.Has (.join join.id) :=
      (List.getElem?_eq_some_iff.mp (aloneNumbered.getElem?_of_joinLabeled? labeled)).1
    have route_eq := continues.route_eq here
    unfold startAtJoin
    cases join.target with
    | elements type => exact .stopped (sight_valueOutcome route_eq rfl _ _ _) mem_routes_iff
    | entity target =>
        cases (Text.segments selector).tail with
        | nil => exact .stopped (sight_entityOutcome route_eq rfl _ _) mem_routes_iff
        | cons next rest => exact .walking ⟨rfl, rfl, rfl, route_eq, mem_routes_iff⟩
  · exact .walking ⟨rfl, rfl, rfl, continues.route_eq has, mem_routes_iff⟩

/-- A selector is walked as it would be without the joins that have been added. -/
theorem resolve_retraces (numbered : query.Numbered) {origin : Origin}
    (has : alone.Has origin.context) (steps : Nat) (selector : String) :
    (resolve metadata mapper steps query origin selector).Retraces query
      (resolve metadata mapper steps alone origin selector) := by
  have kept : (start metadata query origin selector).Holds (Walk.Grounded query)
      (EndedGrounded query) := start_grounded numbered (continues.has has) selector
  have aloneKept : (start metadata alone origin selector).Holds (Walk.Grounded alone)
      (EndedGrounded alone) := start_grounded aloneNumbered has selector
  have started : (start metadata query origin selector).Retraces query
      (start metadata alone origin selector) :=
    start_retraces aloneNumbered continues has selector
  rw [resolve, resolve]
  generalize start metadata query origin selector = progress at kept started ⊢
  generalize start metadata alone origin selector = aloneProgress at aloneKept started ⊢
  cases started with
  | @walking walk alone retraces =>
      dsimp only
      rw [retraces.pending_eq]
      exact retraces.run aloneKept kept _
  | stopped sight_eq mem_routes_iff => exact .stopped sight_eq mem_routes_iff

end

end Selector

end FilterQuery
