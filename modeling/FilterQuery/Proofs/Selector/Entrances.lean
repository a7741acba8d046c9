import FilterQuery.Proofs.Selector.Arrival

/-!
# Ways into a join

A join can be entered by its alias, as the context that a selector starts from, and by the segments
of the joins that lead to it.  The segments find each of these joins at its key, through composites
as well, so all three ways come to the same point with nothing joined on the way.
-/

namespace FilterQuery

/-- A dotted path with a selector behind it. -/
theorem Text.segments_behind {path : List String} (some : path ≠ []) (plain : Text.Plain path)
    (rest : String) : segments (dotted path ++ "." ++ rest) = path ++ segments rest := by
  have whole_eq : dotted path ++ "." ++ rest = dotted (path ++ segments rest) := by
    conv_lhs => rw [← dotted_segments rest]
    exact (String.intercalate_append_of_ne_nil some (segments_ne_nil rest)).symm
  rw [whole_eq]
  exact segments_dotted (List.append_ne_nil_of_left_ne_nil some _)
    (plain.append (plain_segments rest))

/-- A selector that goes on with one more segment. -/
theorem Text.segments_concat (selector : String) {name : String} (dotless : '.' ∉ name.toList) :
    segments (selector ++ "." ++ name) = segments selector ++ [name] := by
  have last : segments (dotted [name]) = [name] :=
    segments_dotted (List.cons_ne_nil name []) (by simpa [Plain] using dotless)
  have behind := segments_behind (segments_ne_nil selector) (plain_segments selector) name
  rw [dotted_segments] at behind
  rw [behind]
  simpa [dotted] using last

namespace Query

variable {query : Query} {context : Context} {path : List String}

theorem Chain.plain (chain : query.Chain context path) : Text.Plain path := by
  induction chain with
  | root => exact Text.plain_nil
  | join join_eq chain ih => exact ih.append (Text.plain_segments _)

theorem Chain.ne_nil {id : JoinId} (chain : query.Chain (.join id) path) : path ≠ [] := by
  cases chain with
  | join join_eq chain => exact List.append_ne_nil_of_right_ne_nil _ (Text.segments_ne_nil _)

end Query

namespace Selector

variable {metadata : Metadata} {mapper : Mapper} {selector other : String} {walk : Walk}
  {query : Query}

/-- The outcome of a walk that has stopped. -/
def Progress.outcome? : Progress → Option (Except CompileError Attribute)
  | .walking _ => none
  | .stopped outcome _ => some outcome

/-! ## Runs that go on -/

/-- A run goes on where its first steps have come to. -/
theorem run_add_of_walking {first : Nat} {next : Walk}
    (walked : run metadata mapper selector first walk = .walking next) (more : Nat) :
    run metadata mapper selector (first + more) walk = run metadata mapper selector more next := by
  induction first generalizing walk with
  | zero =>
      cases walked
      rw [Nat.zero_add]
  | succ first ih =>
      rw [run] at walked
      rw [Nat.add_right_comm, run]
      split at walked
      · exact ih walked
      · cases walked

/-- While segments are left, a step does not look at the whole selector. -/
theorem step_eq_of_pending_ne_nil (some : walk.pending ≠ []) :
    step metadata mapper selector walk = step metadata mapper other walk := by
  obtain ⟨segment, rest, segments⟩ :=
    List.exists_cons_of_ne_nil (expand_ne_nil mapper walk.owner some)
  unfold step
  rw [segments]

/-- So the selector is only what its segments say. -/
theorem run_eq_of_pending_ne_nil (some : walk.pending ≠ []) (steps : Nat) :
    run metadata mapper selector steps walk = run metadata mapper other steps walk := by
  induction steps generalizing walk with
  | zero => rfl
  | succ steps ih =>
      have move := move_step metadata mapper other walk
      have same : step metadata mapper selector walk = step metadata mapper other walk :=
        step_eq_of_pending_ne_nil some
      rw [run, run, same]
      cases step_eq : step metadata mapper other walk with
      | stopped outcome last => rfl
      | walking next =>
          rw [step_eq] at move
          refine ih ?_
          cases move with
          | enter segments more property => exact more
          | follow segments more property => exact more

/-! ## Walking along joins -/

section

variable (noAliases : ∀ owner name, mapper owner name = none)

include noAliases

/-- The path of a join leads into the join. -/
theorem run_path {path rest : List String} {target : EntityId} {cardinality : Cardinality}
    {id : JoinId} (more : rest ≠ []) (pending_eq : walk.pending = path ++ rest)
    (leads : metadata.propertyAt? walk.owner path = some (.association target cardinality))
    (found : walk.query.index.get? (walk.context, Text.dotted (walk.embedded ++ path)) = some id) :
    run metadata mapper selector path.length walk =
      .walking { walk with
        context := .join id, owner := target, embedded := [], pending := rest } := by
  induction path generalizing walk with
  | nil => cases leads
  | cons segment path ih =>
      have expanded : expand mapper walk.owner walk.pending = segment :: (path ++ rest) := by
        rw [expand_of_noAliases noAliases, pending_eq, List.cons_append]
      cases path with
      | nil =>
          obtain ⟨next, others, rfl⟩ := List.exists_cons_of_ne_nil more
          rw [Metadata.propertyAt?_singleton] at leads
          have step_eq : step metadata mapper selector walk =
              .walking { walk with
                context := .join id
                owner := target
                embedded := []
                pending := next :: others } := by
            unfold step
            rw [expanded]
            dsimp only [List.nil_append]
            rw [leads]
            dsimp only [stepAssociation]
            rw [Query.ensureJoin_of_get?_eq_some found]
          rw [List.length_singleton, run, step_eq]
          rfl
      | cons next others =>
          rw [metadata.propertyAt?_cons_of_ne_nil _ _ (List.cons_ne_nil next others)] at leads
          split at leads
          · rename_i inner property
            have step_eq : step metadata mapper selector walk =
                .walking { walk with
                  owner := inner
                  embedded := walk.embedded ++ [segment]
                  pending := (next :: others) ++ rest } := by
              unfold step
              rw [expanded]
              dsimp only [List.cons_append]
              rw [property]
            rw [List.length_cons, run, step_eq]
            refine ih rfl leads ?_
            rw [List.append_assoc]
            exact found
          · cases leads

/-- The joins that lead to a context lead a walk there, and no join is made. -/
theorem run_chain (joined : query.Joined metadata) {context : Context} {path rest : List String}
    (chain : query.Chain context path) {entity : EntityId}
    (entity_eq : query.entityOf context = some entity) (more : rest ≠ []) :
    run metadata mapper selector path.length
        { context := .root, owner := query.root, embedded := [], pending := path ++ rest, query } =
      .walking { context, owner := entity, embedded := [], pending := rest, query } := by
  induction chain generalizing entity rest with
  | root =>
      cases entity_eq
      rfl
  | @join id join above join_eq chain ih =>
      obtain ⟨owner, owner_eq, kind, leads, joins⟩ := joined.leads join_eq
      obtain ⟨_, same, target_eq⟩ := Query.entityOf_join_eq_some_iff.mp entity_eq
      cases join_eq.symm.trans same
      obtain ⟨cardinality, rfl⟩ : ∃ cardinality, kind = .association entity cardinality := by
        rw [target_eq] at joins
        cases kind <;> simp_all [PropertyKind.joinTarget?]
      have to_parent := ih owner_eq
        (List.append_ne_nil_of_right_ne_nil (Text.segments join.path) more)
      rw [List.length_append, List.append_assoc, run_add_of_walking to_parent]
      refine run_path noAliases more rfl leads (joined.get?_index_iff.mpr ⟨join, join_eq, rfl, ?_⟩)
      rw [List.nil_append, Text.dotted_segments]

/-! ## Entering a join -/

omit noAliases in
/-- Behind the alias of a join of an entity a walk goes on from there. -/
theorem start_of_joinLabeled? {join : Join} {entity : EntityId} {label : String}
    {rest : List String} (segments : Text.segments selector = label :: rest)
    (labeled : query.joinLabeled? label = some join) (target_eq : join.target = .entity entity)
    (more : rest ≠ []) (root : EntityId) :
    start metadata query (.root root) selector =
      .walking
        { context := .join join.id, owner := entity, embedded := [], pending := rest, query } := by
  obtain ⟨next, others, rfl⟩ := List.exists_cons_of_ne_nil more
  unfold start
  rw [segments]
  dsimp only [Origin.root, List.head?_cons, Option.bind_some]
  rw [labeled]
  dsimp only [startAtJoin, List.tail_cons]
  rw [target_eq]

omit noAliases in
/-- A walk whose first segment is not an alias starts at the root. -/
theorem start_of_unlabeled
    (unlabeled : ∀ first ∈ (Text.segments selector).head?, query.joinLabeled? first = none)
    (root : EntityId) :
    start metadata query (.root root) selector =
      .walking
        { context := .root, owner := root, embedded := []
          pending := Text.segments selector, query } := by
  have absent : (Text.segments selector).head?.bind query.joinLabeled? = none :=
    Option.bind_eq_none_iff.mpr unlabeled
  unfold start
  dsimp only [Origin.root]
  rw [absent]

/-- A join of an entity is entered alike by its alias, from its context, and along the joins that
lead to it: a selector behind each of these has the same outcome and leaves the same query. -/
theorem resolve_entrances_agree (arises : query.Arises metadata) {join : Join} {entity : EntityId}
    {label : String} {path : List String} (labeled : query.joinLabeled? label = some join)
    (dotless : '.' ∉ label.toList) (target_eq : join.target = .entity entity)
    (chain : query.Chain (.join join.id) path)
    (unlabeled : ∀ first ∈ path.head?, query.joinLabeled? first = none) (rest : String)
    (steps : Nat) :
    ∃ outcome last,
      resolve metadata mapper steps query (.root query.root) (label ++ "." ++ rest) =
        .stopped outcome last ∧
      resolve metadata mapper steps query ⟨.join join.id, entity⟩ rest = .stopped outcome last ∧
      resolve metadata mapper steps query (.root query.root) (Text.dotted path ++ "." ++ rest) =
        .stopped outcome last := by
  have joined := arises.joined
  have more := Text.segments_ne_nil rest
  have join_eq := joined.numbered.getElem?_of_joinLabeled? labeled
  have entity_eq : query.entityOf (.join join.id) = some entity :=
    Query.entityOf_join_eq_some_iff.mpr ⟨join, join_eq, target_eq⟩
  obtain ⟨outcome, last, resolved⟩ :=
    exists_resolve_eq_stopped metadata noAliases steps query ⟨.join join.id, entity⟩ rest
  have inside (selector : String) :
      run metadata mapper selector ((Text.segments rest).length + steps)
          { context := .join join.id, owner := entity, embedded := []
            pending := Text.segments rest, query } = .stopped outcome last :=
    (run_eq_of_pending_ne_nil more _).trans resolved
  refine ⟨outcome, last, ?byAlias, resolved, ?byPath⟩
  case byAlias =>
    have segments : Text.segments (label ++ "." ++ rest) = label :: Text.segments rest := by
      have plain : Text.Plain [label] := by simpa [Text.Plain] using dotless
      simpa [Text.dotted] using Text.segments_behind (List.cons_ne_nil label []) plain rest
    unfold resolve
    rw [start_of_joinLabeled? segments labeled target_eq more]
    exact inside _
  case byPath =>
    have segments := Text.segments_behind chain.ne_nil chain.plain rest
    have first_eq : (path ++ Text.segments rest).head? = path.head? :=
      List.head?_append_of_ne_nil _ chain.ne_nil
    unfold resolve
    rw [start_of_unlabeled (by rwa [segments, first_eq])]
    dsimp only
    rw [segments, List.length_append, Nat.add_assoc,
      run_add_of_walking (run_chain noAliases joined chain entity_eq more)]
    exact inside _

end

/-- The manager of a manager has been joined under an alias. -/
theorem resolve_entrances_agree_staff :
    ∃ query, query.Arises Query.staff ∧ query.joins.map (·.path) = ["manager", "manager"] ∧
      ∃ outcome last,
        resolve Query.staff AliasTable.empty.map 0 query (.root query.root) "chief.manager.id" =
          .stopped outcome last ∧
        resolve Query.staff AliasTable.empty.map 0 query ⟨.join 1, ⟨1⟩⟩ "manager.id" =
          .stopped outcome last ∧
        resolve Query.staff AliasTable.empty.map 0 query (.root query.root)
          "manager.manager.manager.id" = .stopped outcome last := by
  let first : Query.Operation := .join .root "manager" .left none
  let second : Query.Operation := .join (.join 0) "manager" .left (some "chief")
  let query := second.apply Query.staff (first.apply Query.staff (.select ⟨1⟩))
  let manager : Join := ⟨0, .root, "manager", .entity ⟨1⟩, .left, none⟩
  let chief : Join := ⟨1, .join 0, "manager", .entity ⟨1⟩, .left, some "chief"⟩
  have arises : query.Arises Query.staff :=
    .apply (.apply (.select ⟨1⟩) first trivial) second trivial
  have manager_eq : query.joins[0]? = some manager := by decide +kernel
  have chief_eq : query.joins[1]? = some chief := by decide +kernel
  have labeled : query.joinLabeled? "chief" = some chief := by decide +kernel
  have unlabeled : query.joinLabeled? "manager" = none := by decide +kernel
  have segments : Text.segments "manager" = ["manager"] := by decide +kernel
  have chain : query.Chain (.join 1) ["manager", "manager"] := by
    have linked := Query.Chain.join chief_eq (.join manager_eq .root)
    rwa [segments] at linked
  obtain ⟨outcome, last, byAlias, byContext, byPath⟩ :=
    resolve_entrances_agree AliasTable.map_empty arises labeled (by decide) rfl chain
      (by rintro _ ⟨⟩; exact unlabeled) "manager.id" 0
  have path_eq : Text.dotted ["manager", "manager"] ++ "." ++ "manager.id" =
      "manager.manager.manager.id" := by decide +kernel
  rw [path_eq] at byPath
  exact ⟨query, arises, by decide +kernel, outcome, last, byAlias, byContext, byPath⟩

/-- An alias with a dot is not the first segment of any selector, so a join cannot be entered by
it. -/
theorem not_forall_resolve_entrances_agree :
    ¬∀ (query : Query) (join : Join) (entity : EntityId) (label : String) (path : List String)
      (rest : String), query.Arises Query.staff → query.joinLabeled? label = some join →
        join.target = .entity entity → query.Chain (.join join.id) path →
        (∀ first ∈ path.head?, query.joinLabeled? first = none) →
        ∃ outcome last,
          resolve Query.staff AliasTable.empty.map 0 query (.root query.root)
            (label ++ "." ++ rest) = .stopped outcome last ∧
          resolve Query.staff AliasTable.empty.map 0 query ⟨.join join.id, entity⟩ rest =
            .stopped outcome last := by
  intro agree
  let operation : Query.Operation := .join .root "manager" .inner (some "the.chief")
  let query := operation.apply Query.staff (.select ⟨1⟩)
  let chief : Join := ⟨0, .root, "manager", .entity ⟨1⟩, .inner, some "the.chief"⟩
  have chief_eq : query.joins[0]? = some chief := by decide +kernel
  have labeled : query.joinLabeled? "the.chief" = some chief := by decide +kernel
  have unlabeled : query.joinLabeled? "manager" = none := by decide +kernel
  have segments : Text.segments "manager" = ["manager"] := by decide +kernel
  have chain : query.Chain (.join 0) ["manager"] := by
    have linked := Query.Chain.join chief_eq .root
    rwa [segments] at linked
  obtain ⟨outcome, last, byAlias, byContext⟩ := agree query chief ⟨1⟩ "the.chief" ["manager"] "id"
    (.apply (.select ⟨1⟩) operation trivial) labeled rfl chain (by rintro _ ⟨⟩; exact unlabeled)
  have alias_fails : (resolve Query.staff AliasTable.empty.map 0 query (.root query.root)
      ("the.chief" ++ "." ++ "id")).outcome? =
        some (.error (.unknownProperty "the" "Employee")) := by decide +kernel
  have context_arrives : (resolve Query.staff AliasTable.empty.map 0 query ⟨.join 0, ⟨1⟩⟩
      "id").outcome? = some (.ok ⟨⟨.join 0, ["id"]⟩, "id", .integer⟩) := by decide +kernel
  rw [byAlias] at alias_fails
  rw [byContext] at context_arrives
  cases alias_fails.symm.trans context_arrives

end Selector

end FilterQuery
