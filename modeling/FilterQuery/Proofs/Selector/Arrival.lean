import FilterQuery.Proofs.Query.Runs
import FilterQuery.Proofs.Selector.Exact
import FilterQuery.Proofs.Selector.Positions

/-!
# Where selectors arrive

The segments of a selector are walked from type to type.  Embeddings and associations lead into
another type; values and collections of values come last; and an association comes last only if
the entity it leads to has an identifier to stand for it.  Such a walk arrives at a type, or is
stuck at a name that is missing from a type.

Without aliases a selector is resolved exactly so.  Each step drops a segment, so that every walk
comes to an end; the joins on the way and the path behind them spell out the selector; and the
error names the place where the walk is stuck.
-/

namespace FilterQuery

/-! ## Walks on metadata -/

namespace Metadata

variable (metadata : Metadata)

/-- Segments that arrive at a type when they are walked from an owner. -/
inductive Arrives : EntityId → List String → AttributeType → Prop
  | value {owner : EntityId} {last : String} {type : AttributeType}
      (property : metadata.property owner last = some (.attribute type)) :
      Arrives owner [last] type
  | elements {owner : EntityId} {last : String} {type : AttributeType}
      (property : metadata.property owner last = some (.elements type)) :
      Arrives owner [last] type
  | composite {owner inner : EntityId} {last : String}
      (property : metadata.property owner last = some (.embedded inner)) :
      Arrives owner [last] (.object (metadata.displayName inner) false)
  | reference {owner target : EntityId} {last identifier : String} {cardinality : Cardinality}
      {type : AttributeType}
      (property : metadata.property owner last = some (.association target cardinality))
      (declared : metadata.identifier target = some identifier)
      (basic : metadata.property target identifier = some (.attribute type)) :
      Arrives owner [last] (.reference (metadata.displayName target) type)
  | enter {owner inner : EntityId} {segment next : String} {rest : List String}
      {type : AttributeType}
      (property : metadata.property owner segment = some (.embedded inner))
      (arrives : Arrives inner (next :: rest) type) :
      Arrives owner (segment :: next :: rest) type
  | follow {owner target : EntityId} {segment next : String} {rest : List String}
      {cardinality : Cardinality} {type : AttributeType}
      (property : metadata.property owner segment = some (.association target cardinality))
      (arrives : Arrives target (next :: rest) type) :
      Arrives owner (segment :: next :: rest) type

/-- Segments that are stuck at a name that is missing from a type of the given name. -/
inductive Stuck : EntityId → List String → String → String → Prop
  | unknown {owner : EntityId} {segment : String} {rest : List String}
      (property : metadata.property owner segment = none) :
      Stuck owner (segment :: rest) segment (metadata.displayName owner)
  | behindValue {owner : EntityId} {segment next : String} {rest : List String}
      {type : AttributeType} (property : metadata.property owner segment = some (.attribute type)) :
      Stuck owner (segment :: next :: rest) next type.name
  | behindElements {owner : EntityId} {segment next : String} {rest : List String}
      {type : AttributeType} (property : metadata.property owner segment = some (.elements type)) :
      Stuck owner (segment :: next :: rest) next type.name
  | undeclared {owner target : EntityId} {last : String} {cardinality : Cardinality}
      (property : metadata.property owner last = some (.association target cardinality))
      (undeclared : metadata.identifier target = none) :
      Stuck owner [last] "<identifier>" (metadata.displayName target)
  | notBasic {owner target : EntityId} {last identifier : String} {cardinality : Cardinality}
      (property : metadata.property owner last = some (.association target cardinality))
      (declared : metadata.identifier target = some identifier)
      (notBasic : ∀ type, metadata.property target identifier ≠ some (.attribute type)) :
      Stuck owner [last] identifier (metadata.displayName target)
  | enter {owner inner : EntityId} {segment next name typeName : String} {rest : List String}
      (property : metadata.property owner segment = some (.embedded inner))
      (stuck : Stuck inner (next :: rest) name typeName) :
      Stuck owner (segment :: next :: rest) name typeName
  | follow {owner target : EntityId} {segment next name typeName : String} {rest : List String}
      {cardinality : Cardinality}
      (property : metadata.property owner segment = some (.association target cardinality))
      (stuck : Stuck target (next :: rest) name typeName) :
      Stuck owner (segment :: next :: rest) name typeName

variable {metadata : Metadata} {owner : EntityId} {segments : List String}

theorem selectorType_of_arrives {type : AttributeType}
    (arrives : metadata.Arrives owner segments type) :
    metadata.selectorType owner segments = .ok type := by
  induction arrives with
  | value property => simp [selectorType, property]
  | elements property => simp [selectorType, property]
  | composite property => simp [selectorType, property]
  | reference property declared basic =>
      simp [selectorType, property, Selector.referenceType, declared, basic]
  | enter property _ ih => simp [selectorType, property, ih]
  | follow property _ ih => simp [selectorType, property, ih]

theorem selectorType_of_stuck {name typeName : String}
    (stuck : metadata.Stuck owner segments name typeName) :
    metadata.selectorType owner segments = .error (.unknownProperty name typeName) := by
  induction stuck with
  | @unknown owner segment rest property => cases rest <;> simp [selectorType, property]
  | behindValue property => simp [selectorType, property]
  | behindElements property => simp [selectorType, property]
  | undeclared property undeclared =>
      simp [selectorType, property, Selector.referenceType, undeclared]
  | notBasic property declared notBasic =>
      simp only [selectorType, property, Selector.referenceType, declared]
  | enter property _ ih => simp [selectorType, property, ih]
  | follow property _ ih => simp [selectorType, property, ih]

/-- A walk arrives at one type. -/
theorem Arrives.unique {type other : AttributeType} (arrives : metadata.Arrives owner segments type)
    (also : metadata.Arrives owner segments other) : type = other :=
  Except.ok.inj ((selectorType_of_arrives arrives).symm.trans (selectorType_of_arrives also))

/-- A walk is stuck in one place, and does not arrive then. -/
theorem Stuck.unique {name typeName other otherType : String}
    (stuck : metadata.Stuck owner segments name typeName)
    (also : metadata.Stuck owner segments other otherType) :
    name = other ∧ typeName = otherType :=
  CompileError.unknownProperty.inj
    (Except.error.inj ((selectorType_of_stuck stuck).symm.trans (selectorType_of_stuck also)))

theorem Stuck.not_arrives {name typeName : String}
    (stuck : metadata.Stuck owner segments name typeName) (type : AttributeType) :
    ¬ metadata.Arrives owner segments type := by
  intro arrives
  have both := (selectorType_of_stuck stuck).symm.trans (selectorType_of_arrives arrives)
  cases both

/-- A walk arrives or is stuck. -/
theorem arrives_or_stuck (metadata : Metadata) (owner : EntityId) (segment : String)
    (rest : List String) :
    (∃ type, metadata.Arrives owner (segment :: rest) type) ∨
      ∃ name typeName, metadata.Stuck owner (segment :: rest) name typeName := by
  induction rest generalizing owner segment with
  | nil =>
      rcases property : metadata.property owner segment with
        _ | ⟨type⟩ | ⟨inner⟩ | ⟨target, cardinality⟩ | ⟨type⟩
      · exact .inr ⟨_, _, .unknown property⟩
      · exact .inl ⟨_, .value property⟩
      · exact .inl ⟨_, .composite property⟩
      · cases declared : metadata.identifier target with
        | none => exact .inr ⟨_, _, .undeclared property declared⟩
        | some identifier =>
            by_cases basic : ∃ type, metadata.property target identifier = some (.attribute type)
            · obtain ⟨type, basic⟩ := basic
              exact .inl ⟨_, .reference property declared basic⟩
            · exact .inr ⟨_, _, .notBasic property declared (not_exists.mp basic)⟩
      · exact .inl ⟨_, .elements property⟩
  | cons next rest ih =>
      rcases property : metadata.property owner segment with
        _ | ⟨type⟩ | ⟨inner⟩ | ⟨target, cardinality⟩ | ⟨type⟩
      · exact .inr ⟨_, _, .unknown property⟩
      · exact .inr ⟨_, _, .behindValue property⟩
      · exact (ih inner next).imp (fun ⟨type, arrives⟩ => ⟨type, .enter property arrives⟩)
          fun ⟨name, typeName, stuck⟩ => ⟨name, typeName, .enter property stuck⟩
      · exact (ih target next).imp (fun ⟨type, arrives⟩ => ⟨type, .follow property arrives⟩)
          fun ⟨name, typeName, stuck⟩ => ⟨name, typeName, .follow property stuck⟩
      · exact .inr ⟨_, _, .behindElements property⟩

theorem selectorType_eq_ok_iff (some : segments ≠ []) {type : AttributeType} :
    metadata.selectorType owner segments = .ok type ↔ metadata.Arrives owner segments type := by
  constructor
  · intro found
    obtain ⟨segment, rest, rfl⟩ := List.exists_cons_of_ne_nil some
    rcases metadata.arrives_or_stuck owner segment rest with
      ⟨type', arrives⟩ | ⟨name, typeName, stuck⟩
    · rw [selectorType_of_arrives arrives] at found
      cases found
      exact arrives
    · rw [selectorType_of_stuck stuck] at found
      cases found
  · exact selectorType_of_arrives

theorem selectorType_eq_error_iff (some : segments ≠ []) {error : CompileError} :
    metadata.selectorType owner segments = .error error ↔
      ∃ name typeName, error = .unknownProperty name typeName ∧
        metadata.Stuck owner segments name typeName := by
  constructor
  · intro failed
    obtain ⟨segment, rest, rfl⟩ := List.exists_cons_of_ne_nil some
    rcases metadata.arrives_or_stuck owner segment rest with
      ⟨type, arrives⟩ | ⟨name, typeName, stuck⟩
    · rw [selectorType_of_arrives arrives] at failed
      cases failed
    · rw [selectorType_of_stuck stuck] at failed
      cases failed
      exact ⟨name, typeName, rfl, stuck⟩
  · rintro ⟨name, typeName, rfl, stuck⟩
    exact selectorType_of_stuck stuck

end Metadata

/-! ## Chains of joins -/

namespace Query

variable {metadata : Metadata} {query : Query}

/-- The segments of the joins from the root to a context. -/
inductive Chain (query : Query) : Context → List String → Prop
  | root : Chain query .root []
  | join {id : JoinId} {join : Join} {above : List String} (join_eq : query.joins[id]? = some join)
      (chain : Chain query join.parent above) :
      Chain query (.join id) (above ++ Text.segments join.path)

/-- The route to a context is a chain of joins. -/
theorem Numbered.chain_route (numbered : query.Numbered) {context : Context}
    (has : query.Has context) : query.Chain context (query.route context) := by
  cases context with
  | root => exact .root
  | join id =>
      -- parents come before their children
      induction id using Nat.strongRecOn with
      | ind id ih =>
          have join_eq := List.getElem?_eq_getElem (show id < query.joins.length from has)
          rw [numbered.route_join join_eq]
          refine .join join_eq ?_
          cases parent_eq : query.joins[id].parent with
          | root => exact .root
          | join above =>
              have before := numbered.parent_lt join_eq parent_eq
              exact ih above before (Nat.lt_trans before has)

/-- An attribute of a query lies in one of its contexts. -/
theorem Located.has_root {path : AttributePath} {type : AttributeType}
    (located : query.Located metadata path type) : query.Has path.root := by
  cases located with
  | field entity_eq => exact has_of_entityOf_eq_some entity_eq
  | whole entity_eq => exact has_of_entityOf_eq_some entity_eq
  | element join_eq => exact (List.getElem?_eq_some_iff.mp join_eq).1

end Query

/-! ## Resolution -/

namespace Selector

variable {metadata : Metadata} {mapper : Mapper} {query : Query}

/-- Without aliases each step drops a segment. -/
theorem length_of_positionAfter (noAliases : ∀ owner name, mapper owner name = none)
    {steps : Nat} {position next : Position}
    (reached : positionAfter metadata mapper steps position = some next)
    (some : position.pending ≠ []) :
    next.pending.length + steps = position.pending.length ∧ next.pending ≠ [] := by
  induction steps generalizing next with
  | zero =>
      cases reached
      exact ⟨rfl, some⟩
  | succ steps ih =>
      rcases Option.bind_eq_some_iff.mp reached with ⟨middle, reached_middle, advanced⟩
      rcases advance_eq_some_iff.mp advanced with ⟨segment, expanded, more, -⟩
      have dropped := ih reached_middle
      rw [expand_of_noAliases noAliases] at expanded
      rw [expanded, List.length_cons] at dropped
      exact ⟨by omega, more⟩

/-- So a walk ends after as many steps as there are segments. -/
theorem exists_run_eq_stopped (noAliases : ∀ owner name, mapper owner name = none)
    (selector : String) {walk : Walk} (some : walk.pending ≠ []) (steps : Nat) :
    ∃ outcome last, run metadata mapper selector (walk.pending.length + steps) walk =
      .stopped outcome last := by
  have position := run_position metadata mapper selector (walk.pending.length + steps) walk
  cases ran : run metadata mapper selector (walk.pending.length + steps) walk with
  | stopped outcome last => exact ⟨outcome, last, rfl⟩
  | walking next =>
      rw [ran] at position
      have dropped := length_of_positionAfter noAliases position some
      have more := List.length_pos_of_ne_nil dropped.2
      simp only [Walk.position] at dropped more
      omega

theorem exists_resolve_eq_stopped (metadata : Metadata)
    (noAliases : ∀ owner name, mapper owner name = none) (steps : Nat) (query : Query)
    (origin : Origin) (selector : String) :
    ∃ outcome last, resolve metadata mapper steps query origin selector =
      .stopped outcome last := by
  unfold resolve
  rcases start_cases metadata query origin selector with
    ⟨label, rest, join, -, -, -, start_eq⟩ | start_eq
  · rw [start_eq]
    unfold startAtJoin
    cases join.target with
    | elements type => exact ⟨_, _, rfl⟩
    | entity target =>
        cases rest with
        | nil => exact ⟨_, _, rfl⟩
        | cons next rest =>
            exact exists_run_eq_stopped noAliases selector (List.cons_ne_nil next rest) steps
  · rw [start_eq]
    exact exists_run_eq_stopped noAliases selector (Text.segments_ne_nil selector) steps

/-- Without aliases a selector that does not start with the alias of a join is walked from the type
of the root.  Its resolution comes to an end, and succeeds exactly if the walk arrives.  Then the
joins in front of the attribute and the path of the attribute spell out the selector, and the
attribute has the type that the walk arrives at.  Otherwise the error names what is missing, and
the type it is missing from, where the walk is stuck. -/
theorem resolve_arrives_or_stuck (noAliases : ∀ owner name, mapper owner name = none)
    (arises : query.Arises metadata) (selector : String)
    (unlabeled : ∀ label ∈ (Text.segments selector).head?, query.joinLabeled? label = none)
    (steps : Nat) :
    ∃ outcome last,
      resolve metadata mapper steps query (.root query.root) selector = .stopped outcome last ∧
      ((∃ leaf, outcome = .ok leaf) ↔
        ∃ type, metadata.Arrives query.root (Text.segments selector) type) ∧
      (∀ leaf, outcome = .ok leaf →
        metadata.Arrives query.root (Text.segments selector) leaf.type ∧
        ∃ chain, last.Chain leaf.path.root chain ∧
          chain ++ leaf.path.segments = Text.segments selector) ∧
      ∀ error, outcome = .error error →
        ∃ name typeName, error = .unknownProperty name typeName ∧
          metadata.Stuck query.root (Text.segments selector) name typeName := by
  have some := Text.segments_ne_nil selector
  have joined := arises.joined
  have entity_eq : query.entityOf (Origin.root query.root).context = Option.some query.root := rfl
  obtain ⟨outcome, last, resolved⟩ :=
    exists_resolve_eq_stopped metadata noAliases steps query (.root query.root) selector
  have sound := resolve_sound joined entity_eq mapper steps selector
  have exact := resolve_exact noAliases joined entity_eq selector
    (fun label first _ => unlabeled label first) rfl steps
  rw [resolved] at sound exact
  have type_eq : outcome.map (·.type) =
      metadata.selectorType query.root (Text.segments selector) := exact.type_eq
  have arrives (leaf : Attribute) (found : outcome = .ok leaf) :
      metadata.Arrives query.root (Text.segments selector) leaf.type := by
    rw [found] at type_eq
    exact (Metadata.selectorType_eq_ok_iff some).mp type_eq.symm
  refine ⟨outcome, last, resolved, ⟨?_, ?_⟩, ?_, ?_⟩
  · rintro ⟨leaf, found⟩
    exact ⟨leaf.type, arrives leaf found⟩
  · rintro ⟨type, arrives⟩
    rw [Metadata.selectorType_of_arrives arrives] at type_eq
    cases outcome with
    | ok leaf => exact ⟨leaf, rfl⟩
    | error error => cases type_eq
  · intro leaf found
    exact ⟨arrives leaf found, last.route leaf.path.root,
      sound.joined.numbered.chain_route (sound.located leaf found).has_root,
      exact.route_eq leaf found⟩
  · intro error failed
    rw [failed] at type_eq
    exact (Metadata.selectorType_eq_error_iff some).mp type_eq.symm

/-- Authors with their addresses and books.  Countries have no identifier. -/
def authors : Metadata :=
  Schema.metadata
    [(⟨1⟩, { name := "Author", identifier := some "id",
             properties := [("id", .attribute .integer), ("home", .embedded ⟨3⟩),
               ("books", .association ⟨2⟩ .collection)] }),
     (⟨2⟩, { name := "Book", identifier := some "isbn",
             properties := [("isbn", .attribute .text), ("topics", .elements .text)] }),
     (⟨3⟩, { name := "Address", properties := [("country", .association ⟨4⟩ .single)] }),
     (⟨4⟩, { name := "Country", properties := [("name", .attribute .text)] })]

/-- The books have been joined under an alias, and a strategy has compiled an operator of its own by
another one. -/
theorem resolve_arrives_or_stuck_authors :
    ∃ query, query.Arises authors ∧
      query.joins.map (·.path) = ["books", "topics"] ∧
      (∃ leaf last chain,
        resolve authors AliasTable.empty.map 0 query (.root query.root) "home.country.name" =
          .stopped (.ok leaf) last ∧
        leaf.type = .text ∧ last.Chain leaf.path.root chain ∧
        chain ++ leaf.path.segments = ["home", "country", "name"]) ∧
      ∃ last, resolve authors AliasTable.empty.map 0 query (.root query.root) "home.country" =
        .stopped (.error (.unknownProperty "<identifier>" "Country")) last := by
  let about : Strategy := fun _ compile node => compile (.comparison { node with operator := "==" })
  let configuration : Configuration := { tools := { strategy := some about } }
  let join : Query.Operation := .join .root "books" .left (some "b")
  let compile : Query.Operation :=
    .compileInto .entities configuration 1 (.comparison ⟨"b.topics", "=about=", ["lean"]⟩)
  let query := compile.apply authors (join.apply authors (.select ⟨1⟩))
  have confined : compile.Confined := by
    rintro strategy ⟨⟩ _ _ _ _ keeps node
    exact keeps _
  have arises : query.Arises authors := .apply (.apply (.select ⟨1⟩) join trivial) compile confined
  have unlabeled : query.joinLabeled? "home" = none := by decide +kernel
  have name_eq : Text.segments "home.country.name" = ["home", "country", "name"] := by
    decide +kernel
  have country_eq : Text.segments "home.country" = ["home", "country"] := by decide +kernel
  have home : authors.property query.root "home" = some (.embedded ⟨3⟩) := by decide +kernel
  have country : authors.property ⟨3⟩ "country" = some (.association ⟨4⟩ .single) := by
    decide +kernel
  have arrives : authors.Arrives query.root ["home", "country", "name"] .text :=
    .enter home (.follow country (.value (by decide +kernel)))
  have stuck : authors.Stuck query.root ["home", "country"] "<identifier>" "Country" :=
    .enter home (.undeclared country (by decide +kernel))
  refine ⟨query, arises, by decide +kernel, ?_, ?_⟩
  · obtain ⟨outcome, last, resolved, succeeds, found, -⟩ :=
      resolve_arrives_or_stuck AliasTable.map_empty arises
        "home.country.name" (by rw [name_eq]; rintro label ⟨⟩; exact unlabeled) 0
    rw [name_eq] at succeeds found
    obtain ⟨leaf, rfl⟩ := succeeds.mpr ⟨_, arrives⟩
    obtain ⟨same, chain, linked, spelled⟩ := found leaf rfl
    exact ⟨leaf, last, chain, resolved, same.unique arrives, linked, spelled⟩
  · obtain ⟨outcome, last, resolved, succeeds, -, fails⟩ :=
      resolve_arrives_or_stuck AliasTable.map_empty arises
        "home.country" (by rw [country_eq]; rintro label ⟨⟩; exact unlabeled) 0
    rw [country_eq] at succeeds fails
    cases outcome with
    | ok leaf =>
        obtain ⟨type, arrives⟩ := succeeds.mp ⟨leaf, rfl⟩
        exact absurd arrives (stuck.not_arrives type)
    | error error =>
        obtain ⟨name, typeName, rfl, place⟩ := fails error rfl
        obtain ⟨rfl, rfl⟩ := place.unique stuck
        exact ⟨last, resolved⟩

end Selector

end FilterQuery
