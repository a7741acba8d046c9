import FilterQuery.Proofs.Compile.References
import FilterQuery.Proofs.Compile.Typing
import FilterQuery.Proofs.Meaning.Correctness
import FilterQuery.Proofs.Selector.Entrances

/-!
# Associations stand for identifiers

A selector that ends at an association stands for the identifier of the row there, and so does the
selector that goes on to the identifier.  The second one joins a single entity where the first one
reads the reference.  Where the entity is missing there is then nothing to choose for the second
one, and null for the first one; comparisons that null never passes cannot tell the difference.
-/

namespace FilterQuery

/-! ## Paths to associations -/

namespace Metadata

variable {metadata : Metadata}

/-- A path from an entity to an association. -/
def EndsAt (metadata : Metadata) (root : EntityId) (path : List String) (target : EntityId)
    (cardinality : Cardinality) : Prop :=
  ∃ front last place, path = front ++ [last] ∧ metadata.locate ⟨root, []⟩ front = some place ∧
    metadata.property place.owner last = some (.association target cardinality)

/-- The paths that are joined up to a place do not depend on what comes behind it. -/
theorem exists_joinedPaths_append {place reached : Place} {front : List String}
    (located : metadata.locate place front = some reached) (passed : List String) :
    ∃ paths, (∀ path ∈ paths, path.length ≤ passed.length + front.length) ∧
      ∀ more ≠ [], metadata.joinedPaths place.owner passed (front ++ more) =
        paths ++ metadata.joinedPaths reached.owner (passed ++ front) more := by
  induction front generalizing place passed with
  | nil =>
      cases located
      exact ⟨[], by simp, fun more _ => by simp⟩
  | cons segment front ih =>
      have length_eq : (passed ++ [segment]).length + front.length =
          passed.length + (segment :: front).length := by
        simp only [List.length_append, List.length_cons, List.length_nil]
        omega
      rw [locate] at located
      split at located
      · rename_i inner property
        obtain ⟨paths, short, paths_eq⟩ := ih located (passed ++ [segment])
        rw [length_eq] at short
        refine ⟨paths, short, fun more some => ?_⟩
        simpa [joinedPaths, property] using paths_eq more some
      · rename_i target cardinality property
        obtain ⟨paths, short, paths_eq⟩ := ih located (passed ++ [segment])
        rw [length_eq] at short
        refine ⟨(passed ++ [segment]) :: paths, ?_, fun more some => ?_⟩
        · exact List.forall_mem_cons.mpr ⟨by simp, short⟩
        · simpa [joinedPaths, property, some] using paths_eq more some
      · cases located

section

variable {root target : EntityId} {path : List String} {cardinality : Cardinality} {name : String}
  {type : AttributeType} (ends : metadata.EndsAt root path target cardinality)
  (declared : metadata.identifier target = some name)
  (basic : metadata.property target name = some (.attribute type))

include ends declared basic

/-- The type of an association refers to the type of the identifier. -/
theorem EndsAt.selectorType_eq :
    metadata.selectorType root path = .ok (.reference (metadata.displayName target) type) ∧
      metadata.selectorType root (path ++ [name]) = .ok type := by
  obtain ⟨front, last, place, rfl, located, property⟩ := ends
  have at_front (more : List String) (some : more ≠ []) :
      metadata.selectorType root (front ++ more) = metadata.selectorType place.owner more :=
    selectorType_append located some
  rw [List.append_assoc, at_front _ (by simp), at_front _ (by simp)]
  simp [selectorType, property, Selector.referenceType, declared, basic]

omit declared in
/-- The identifier needs the paths joined that the association needs, and that of a single entity
as well. -/
theorem EndsAt.joinedPaths_eq :
    metadata.joinedPaths root [] (path ++ [name]) =
        metadata.joinedPaths root [] path ++ (if cardinality = .single then [path] else []) ∧
      (cardinality = .single → path ∉ metadata.joinedPaths root [] path) := by
  obtain ⟨front, last, place, rfl, located, property⟩ := ends
  obtain ⟨paths, short, paths_eq⟩ := exists_joinedPaths_append located []
  have at_front (more : List String) (some : more ≠ []) :
      metadata.joinedPaths root [] (front ++ more) =
        paths ++ metadata.joinedPaths place.owner front more :=
    paths_eq more some
  have absent : front ++ [last] ∉ paths := by
    intro member
    simpa using short _ member
  rw [List.append_assoc, at_front _ (by simp), at_front _ (by simp)]
  cases cardinality <;> simp [joinedPaths, property, basic, absent]

end

end Metadata

/-! ## Rows and composites that conform -/

theorem Record.conforms_nil (metadata : Metadata) (store : Store) (owner : EntityId) :
    Record.Conforms metadata store owner [] :=
  nofun

theorem Record.Conforms.composite {metadata : Metadata} {store : Store} {owner inner : EntityId}
    {record : Record} (conforms : record.Conforms metadata store owner) {segment : String}
    (property : metadata.property owner segment = some (.embedded inner)) :
    (record.composite segment).Conforms metadata store inner := by
  unfold Record.composite
  split
  · rename_i fields found
    cases conforms segment _ _ property found with
    | embedded each => exact each
  · exact conforms_nil metadata store inner

namespace ObjectGraph

variable {graph : ObjectGraph} {choice : Choice}

/-- A row or a composite with fields that are what its type declares. -/
def Conforms (graph : ObjectGraph) (spot : Spot) : Prop :=
  spot.fields.Conforms graph.metadata graph.store spot.owner

section

variable (conforms : graph.store.Conforms graph.metadata graph.root.entity)

include conforms

theorem Conforms.enter {spot next : Spot} (here : graph.Conforms spot) {path : List String}
    {segment : String} (entered : graph.enter choice spot path segment = some next) :
    graph.Conforms next := by
  unfold ObjectGraph.enter at entered
  split at entered
  · rename_i inner property
    cases entered
    exact Record.Conforms.composite here property
  · rename_i target cardinality property
    split at entered
    · rename_i row chosen
      cases entered
      have member := List.mem_of_getElem? chosen
      cases found : spot.fields.get? segment with
      | none =>
          rw [found] at member
          cases member
      | some datum =>
          rw [found] at member
          have row_of : graph.store.RowOf target row :=
            (here segment _ datum property found).bindings_fit rfl _ member
          exact conforms.fieldsOf_conforms (.inr ⟨_, _, _, property⟩) row_of
    · cases entered
  · cases entered

theorem Conforms.follow {spot next : Spot} (here : graph.Conforms spot) {passed path : List String}
    (followed : graph.follow choice spot passed path = some next) : graph.Conforms next := by
  induction path generalizing spot passed with
  | nil =>
      cases followed
      exact here
  | cons segment path ih =>
      obtain ⟨middle, entered, followed⟩ := Option.bind_eq_some_iff.mp followed
      exact ih (here.enter conforms entered) followed

/-- Whatever a path from a row of the root leads to has the fields that its type declares. -/
theorem conforms_of_reach (found : graph.store.HasRow graph.root) {path : List String} {spot : Spot}
    (reached : graph.reach choice path = some spot) : graph.Conforms spot := by
  have at_root : graph.Conforms ⟨graph.root.entity, graph.store.fieldsOf graph.root⟩ :=
    conforms.fieldsOf_conforms (.inl rfl) ⟨rfl, found⟩
  exact at_root.follow conforms reached

end

/-! ## Values of identifiers -/

theorem value_concat (path : List String) (last : String) :
    graph.value choice (path ++ [last]) =
      match graph.reach choice path with
      | some spot =>
          match graph.metadata.property spot.owner last with
          | some kind => graph.content (choice (path ++ [last])) kind (spot.fields.get? last)
          | none => .null
      | none => .null := by
  rw [value, List.getLast?_concat, List.dropLast_concat]
  cases graph.reach choice path <;> rfl

section

variable (conforms : graph.store.Conforms graph.metadata graph.root.entity)
  (found : graph.store.HasRow graph.root) {path : List String} {target : EntityId}
  {cardinality : Cardinality}
  (ends : graph.metadata.EndsAt graph.root.entity path target cardinality)

include conforms found ends

/-- What there is at the end of a path to an association decides on its targets, its value and
where it leads to. -/
theorem exists_datum_of_endsAt (choice : Choice) :
    ∃ datum? : Option Datum,
      (∀ datum ∈ datum?,
        datum.Conforms graph.metadata graph.store (.association target cardinality)) ∧
      graph.targets choice path = Store.bindings datum? ∧
      graph.value choice path =
        graph.content (choice path) (.association target cardinality) datum? ∧
      graph.reach choice path =
        match (Store.bindings datum?)[choice path]? with
        | some (.row row) => some ⟨target, graph.store.fieldsOf row⟩
        | _ => none := by
  obtain ⟨front, last, place, rfl, located, property⟩ := ends
  cases reached : graph.reach choice front with
  | none =>
      refine ⟨none, nofun, ?_, ?_, ?_⟩
      · simp [targets, reached, Store.bindings]
      · simp [value, reached]
      · simp [reach_append, reached, Store.bindings]
  | some spot =>
      have spot_conforms := conforms_of_reach conforms found reached
      obtain ⟨remembered, route_located⟩ := locate_of_follow reached []
      obtain rfl : place = ⟨spot.owner, remembered⟩ :=
        Option.some.inj (located.symm.trans route_located)
      refine ⟨spot.fields.get? last, ?_, ?_, ?_, ?_⟩
      · exact fun datum entry => spot_conforms last _ datum property entry
      · simp [targets, reached]
      · rw [value_concat, reached]
        simp only [property]
      · rw [reach_append, reached, Option.bind_some, follow, enter, property]
        exact Option.bind_fun_some _

/-- A single entity is one target at most. -/
theorem length_targets_le_one (single : cardinality = .single) (choice : Choice) :
    (graph.targets choice path).length ≤ 1 := by
  subst single
  obtain ⟨datum?, datum_conforms, targets_eq, -⟩ :=
    exists_datum_of_endsAt conforms found ends choice
  rw [targets_eq]
  cases datum? with
  | none => exact Nat.zero_le 1
  | some datum =>
      cases datum_conforms datum rfl with
      | @reference _ row? =>
          cases row? with
          | none => exact Nat.zero_le 1
          | some row => exact Nat.le_refl 1

/-- Where a row is chosen an association leads to the row and has its identity.  Otherwise it leads
nowhere and has no value, as a reference is only read where there is nothing to choose. -/
theorem value_of_endsAt (unset : cardinality = .single → choice path = 0) :
    (∃ row, graph.store.RowOf target row ∧ choice path < (graph.targets choice path).length ∧
        graph.value choice path = graph.identity row ∧
        graph.reach choice path = some ⟨target, graph.store.fieldsOf row⟩) ∨
      graph.value choice path = .null ∧ graph.reach choice path = none := by
  obtain ⟨datum?, datum_conforms, targets_eq, value_eq, reach_eq⟩ :=
    exists_datum_of_endsAt conforms found ends choice
  rw [targets_eq, value_eq, reach_eq]
  cases datum? with
  | none => exact .inr ⟨content_none .., rfl⟩
  | some datum =>
      cases datum_conforms datum rfl with
      | @reference _ row? row_of =>
          rw [unset rfl]
          cases row? with
          | none => exact .inr ⟨rfl, rfl⟩
          | some row => exact .inl ⟨row, row_of row rfl, Nat.one_pos, rfl, rfl⟩
      | @references _ rows row_of =>
          simp only [content, Store.bindings, List.getElem?_map, List.length_map]
          cases row_eq : rows[choice path]? with
          | none => exact .inr ⟨rfl, rfl⟩
          | some row =>
              obtain ⟨inside, -⟩ := List.getElem?_eq_some_iff.mp row_eq
              exact .inl ⟨row, row_of row (List.mem_of_getElem? row_eq), inside, rfl, rfl⟩

variable {name : String} {type : AttributeType}

/-- An association has the value of the identifier behind it. -/
theorem value_identifier (declared : graph.metadata.identifier target = some name)
    (basic : graph.metadata.property target name = some (.attribute type))
    (unset : cardinality = .single → choice path = 0) :
    graph.value choice (path ++ [name]) = graph.value choice path := by
  rw [value_concat]
  rcases value_of_endsAt conforms found ends unset with
    ⟨row, row_of, -, value_eq, reach_eq⟩ | ⟨value_eq, reach_eq⟩
  · rw [reach_eq, value_eq, identity, row_of.1, declared]
    simp only [basic]
    cases (graph.store.fieldsOf row).get? name with
    | none => rfl
    | some datum => cases datum <;> rfl
  · rw [reach_eq, value_eq]

end

/-! ## Ways to match -/

/-- A choice at one more path, where there is one target at most, is that of its target. -/
theorem permits_concat_iff {paths : List (List String)} {path : List String}
    (absent : path ∉ paths) (few : (graph.targets choice path).length ≤ 1) :
    graph.Permits choice (paths ++ [path]) ↔
      graph.Permits choice paths ∧ 0 < (graph.targets choice path).length := by
  constructor
  · intro permits
    have chosen := permits.lt_length path (by simp)
    have zero : choice path = 0 := Nat.lt_one_iff.mp (Nat.lt_of_lt_of_le chosen few)
    constructor
    · constructor
      · intro other otherAbsent
        by_cases same : other = path
        · rw [same, zero]
        · exact permits.eq_zero other (by simp [otherAbsent, same])
      · intro other member
        exact permits.lt_length other (by simp [member])
    · exact Nat.zero_lt_of_lt chosen
  · rintro ⟨permits, some_target⟩
    constructor
    · intro other otherAbsent
      apply permits.eq_zero other
      intro member
      exact otherAbsent (by simp [member])
    · intro other member
      rcases List.mem_append.mp member with member | last
      · exact permits.lt_length other member
      · rw [List.mem_singleton.mp last, permits.eq_zero path absent]
        exact some_target

/-- A comparison on an association matches in the ways in which it matches on the identifier. -/
theorem matching_identifier
    (conforms : graph.store.Conforms graph.metadata graph.root.entity)
    (found : graph.store.HasRow graph.root) {literals : Literals}
    (reads : literals.parser.ReadsIdentifiers) {operator : ComparisonOperator}
    {selector identifier symbol name : String} {arguments : List String} {target : EntityId}
    {cardinality : Cardinality} {type : AttributeType}
    (parsed : ComparisonOperator.parse? symbol = some operator)
    (asks : literals.AsksValues operator arguments)
    (segments_eq : Text.segments identifier = Text.segments selector ++ [name])
    (ends : graph.metadata.EndsAt graph.root.entity (Text.segments selector) target cardinality)
    (declared : graph.metadata.identifier target = some name)
    (basic : graph.metadata.property target name = some (.attribute type)) :
    graph.matching literals (.comparison ⟨identifier, symbol, arguments⟩) =
      graph.matching literals (.comparison ⟨selector, symbol, arguments⟩) := by
  obtain ⟨type_eq, identifier_type_eq⟩ := ends.selectorType_eq declared basic
  obtain ⟨paths_eq, absent⟩ := ends.joinedPaths_eq basic
  have accepts_eq (choice : Choice)
      (unset : cardinality = .single → choice (Text.segments selector) = 0) :
      graph.accepts choice literals ⟨identifier, symbol, arguments⟩ =
        graph.accepts choice literals ⟨selector, symbol, arguments⟩ := by
    simp only [accepts, parsed, segments_eq, type_eq, identifier_type_eq]
    rw [asks.accepts_reference reads, value_identifier conforms found ends declared basic unset]
  have accepted (choice : Choice)
      (holds : graph.accepts choice literals ⟨selector, symbol, arguments⟩ = true) :
      graph.value choice (Text.segments selector) ≠ .null := by
    intro missing
    simp only [accepts, parsed, type_eq, missing, asks.not_accepts_null] at holds
    cases holds
  ext choice
  simp only [matching, Filter.joinedPaths, Filter.comparisons, Filter.evaluate,
    List.flatMap_singleton, Set.mem_ofPred_eq, segments_eq]
  rw [paths_eq]
  cases cardinality with
  | collection =>
      rw [accepts_eq choice (by simp)]
      simp
  | single =>
      rw [if_pos rfl, permits_concat_iff (absent rfl)
        (length_targets_le_one conforms found ends rfl choice)]
      constructor
      · rintro ⟨⟨permits, -⟩, holds⟩
        rw [accepts_eq choice fun _ => permits.eq_zero _ (absent rfl)] at holds
        exact ⟨permits, holds⟩
      · rintro ⟨permits, holds⟩
        have unset := permits.eq_zero _ (absent rfl)
        rw [accepts_eq choice fun _ => unset]
        refine ⟨⟨permits, ?_⟩, holds⟩
        -- where there is nothing to choose the value is null, which does not pass
        rcases value_of_endsAt conforms found ends fun _ => unset with
          ⟨row, -, inside, -⟩ | ⟨missing, -⟩
        · exact Nat.zero_lt_of_lt inside
        · exact absurd missing (accepted choice holds)

end ObjectGraph

namespace QueryCompiler

variable {compiler : QueryCompiler}

/-- A comparison on an association and the same comparison on the identifier behind it are compiled
alike: both are refused for the same reason, or both give a query, and the queries select the same
rows from every store that conforms to the metadata.  So it is for operators and arguments that
null never passes. -/
theorem select_identifier
    (noAliases : compiler.configuration.tools.mapper = AliasTable.empty.map)
    (reads : compiler.configuration.tools.parser.ReadsIdentifiers)
    {operator : ComparisonOperator} {selector symbol name : String} {arguments : List String}
    {target : EntityId} {cardinality : Cardinality} {type : AttributeType}
    (parsed : ComparisonOperator.parse? symbol = some operator)
    (asks : compiler.literals.AsksValues operator arguments)
    (ends : compiler.metadata.EndsAt compiler.root (Text.segments selector) target cardinality)
    (declared : compiler.metadata.identifier target = some name)
    (basic : compiler.metadata.property target name = some (.attribute type))
    (dotless : '.' ∉ name.toList) :
    (∃ error,
      compiler.compile (.comparison ⟨selector, symbol, arguments⟩) = .error (.rejected error) ∧
      compiler.compile (.comparison ⟨selector ++ "." ++ name, symbol, arguments⟩) =
        .error (.rejected error)) ∨
    ∃ query other,
      compiler.compile (.comparison ⟨selector, symbol, arguments⟩) = .ok query ∧
      compiler.compile (.comparison ⟨selector ++ "." ++ name, symbol, arguments⟩) = .ok other ∧
      ∀ store : Store, store.Conforms compiler.metadata compiler.root → ∀ distinct,
        ∃ rows, store.select { query with distinct } = .ok rows ∧
          store.select { other with distinct } = .ok rows := by
  have segments_eq := Text.segments_concat selector dotless
  obtain ⟨type_eq, identifier_type_eq⟩ := ends.selectorType_eq declared basic
  rw [← segments_eq] at identifier_type_eq
  -- no strategy is asked, so it is as if there were none
  let plain := compiler.withStrategy none
  have plain_eq (selector : String) : plain.compile (.comparison ⟨selector, symbol, arguments⟩) =
      compiler.compile (.comparison ⟨selector, symbol, arguments⟩) := by
    apply compile_withStrategy_none
    simp [Filter.comparisons, ComparisonOperator.isSymbol_iff, parsed]
  have plain_noAliases : plain.configuration.tools.mapper = AliasTable.empty.map := noAliases
  rw [← plain_eq, ← plain_eq]
  rcases compile_reference plain_noAliases rfl reads parsed asks type_eq identifier_type_eq with
    refused | ⟨query, other, compiled, compiledOther⟩
  · exact .inl refused
  · refine .inr ⟨query, other, compiled, compiledOther, ?_⟩
    intro store conforms distinct
    have renders := renders_of_compile_eq_ok plain_noAliases rfl compiled
    have rendersOther := renders_of_compile_eq_ok plain_noAliases rfl compiledOther
    obtain ⟨table, table_eq, -⟩ := conforms compiler.root (.inl rfl)
    have ways_eq (row : Nat) (inside : row ∈ List.range table.rows.length) :
        (plain.graph store row).ways plain.literals
            (.comparison ⟨selector ++ "." ++ name, symbol, arguments⟩) =
          (plain.graph store row).ways plain.literals
            (.comparison ⟨selector, symbol, arguments⟩) :=
      congrArg Set.ncard (ObjectGraph.matching_identifier conforms
        ⟨table, table_eq, List.mem_range.mp inside⟩ reads parsed asks segments_eq ends declared
        basic)
    have selected := rendersOther.select_eq conforms table_eq
    rw [List.flatMap_congr fun row inside => by rw [ways_eq row inside]] at selected
    exact ⟨_, Store.select_distinct (renders.select_eq conforms table_eq) distinct,
      Store.select_distinct selected distinct⟩

/-- Of the members of a department one has no chief.  Only the selector that goes on to the
identifier joins the chief of the other one. -/
theorem select_identifier_company :
    let compiler := QueryCompiler.select company.metadata ⟨1⟩
    ∃ query other,
      compiler.compile (.comparison ⟨"members.chief", "=out=", ["2"]⟩) = .ok query ∧
      compiler.compile (.comparison ⟨"members.chief" ++ "." ++ "id", "=out=", ["2"]⟩) = .ok other ∧
      query.joins.map (·.path) = ["members"] ∧ other.joins.map (·.path) = ["members", "chief"] ∧
      companyStore.select { query with distinct := false } = .ok [⟨⟨1⟩, 0⟩] ∧
      companyStore.select { other with distinct := false } = .ok [⟨⟨1⟩, 0⟩] := by
  intro compiler
  have segments_eq : Text.segments "members.chief" = ["members", "chief"] := by decide +kernel
  have ends : compiler.metadata.EndsAt compiler.root (Text.segments "members.chief") ⟨2⟩ .single :=
    ⟨["members"], "chief", ⟨⟨2⟩, []⟩, segments_eq, rfl, rfl⟩
  have parsed : ComparisonOperator.parse? "=out=" = some .notIn := rfl
  have asks : compiler.literals.AsksValues .notIn ["2"] := ⟨rfl, by simp, nofun⟩
  have evaluated :
      (compiler.compile (.comparison ⟨"members.chief", "=out=", ["2"]⟩)).toOption.map
        (fun query => (query.joins.map (·.path),
          (companyStore.select { query with distinct := false }).toOption)) =
        some (["members"], some [⟨⟨1⟩, 0⟩]) := by decide +kernel
  have joined :
      (compiler.compile (.comparison
        ⟨"members.chief" ++ "." ++ "id", "=out=", ["2"]⟩)).toOption.map (·.joins.map (·.path)) =
        some ["members", "chief"] := by decide +kernel
  rcases select_identifier rfl (ArgumentParser.withDates_readsIdentifiers _) parsed asks ends rfl
    rfl (by decide) with ⟨error, failed, -⟩ | ⟨query, other, compiled, compiledOther, select⟩
  · rw [failed] at evaluated
    cases evaluated
  · obtain ⟨rows, selected, selectedOther⟩ := select companyStore companyStore_conforms false
    rw [compiled] at evaluated
    rw [compiledOther] at joined
    obtain ⟨joins_eq, rows_eq⟩ := Prod.mk.inj (Option.some.inj evaluated)
    rw [selected] at rows_eq
    obtain rfl := Option.some.inj rows_eq
    exact ⟨query, other, compiled, compiledOther, joins_eq, Option.some.inj joined, selected,
      selectedOther⟩

end QueryCompiler

end FilterQuery
