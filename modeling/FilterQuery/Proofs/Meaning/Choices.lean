import FilterQuery.Proofs.Compile.Conditions
import FilterQuery.Proofs.Query.Routes
import FilterQuery.Proofs.Selector.Exact
import FilterQuery.Proofs.Store.Conformity
import Mathlib.Data.Set.Card

/-!
# The direct meaning of filters

A filter can be read off the data without joins and tuples.  The rows and composites below a
row of the root are a graph, in which a path of associations has targets once a target has
been chosen at each path in front of it.  A selector then stands for one value, and a filter
holds or does not.  A row of the root matches in as many ways as there are choices, for the
paths that the filter's selectors join, with which the filter holds.
-/

namespace FilterQuery

/-- A choice of a target at every path, by its place among the targets there. -/
abbrev Choice := List String → Nat

/-- A row or a composite. -/
structure Spot where
  /-- The type of the row or the composite. -/
  owner : EntityId
  fields : Record

/-- The fields of a row; a row that is not there has none. -/
def Store.fieldsOf (store : Store) (row : RowRef) : Record :=
  (store.record row).toOption.getD []

/-- A row of an entity that has a table has the fields that the entity declares. -/
theorem Store.Conforms.fieldsOf_conforms {metadata : Metadata} {store : Store}
    {root entity : EntityId} (conforms : store.Conforms metadata root)
    (needed : metadata.NeedsTable root entity) {row : RowRef} (row_of : store.RowOf entity row) :
    (store.fieldsOf row).Conforms metadata store entity := by
  rcases conforms.exists_record needed row_of with ⟨record, record_eq, record_conforms⟩
  rw [Store.fieldsOf, record_eq]
  exact record_conforms

/-- The fields of a composite; one that is not there has none. -/
def Record.composite (record : Record) (segment : String) : Record :=
  match record.get? segment with
  | some (.embedded fields) => fields
  | _ => []

theorem Record.navigate?_composite (record : Record) (segment : String) {path : List String}
    (h : path ≠ []) :
    record.navigate? (segment :: path) = (record.composite segment).navigate? path := by
  rw [navigate?_cons_of_ne_nil record segment h, composite]
  cases Keyed.get? record segment with
  | none => exact (navigate?_nil path).symm
  | some datum =>
      cases datum with
      | embedded fields => rfl
      | _ => exact (navigate?_nil path).symm

/-- What can be reached from a row. -/
structure ObjectGraph where
  metadata : Metadata
  store : Store
  root : RowRef

namespace ObjectGraph

variable (graph : ObjectGraph) (choice : Choice)

/-! ## Paths -/

/-- Takes one segment, which completes a path: into a composite, or to the target of an
association that is chosen at the path. -/
def enter (spot : Spot) (path : List String) (segment : String) : Option Spot :=
  match graph.metadata.property spot.owner segment with
  | some (.embedded inner) => some ⟨inner, spot.fields.composite segment⟩
  | some (.association target _) =>
      match (Store.bindings (spot.fields.get? segment))[choice path]? with
      | some (.row row) => some ⟨target, graph.store.fieldsOf row⟩
      | _ => none
  | _ => none

/-- Takes some segments behind those of a path that has been passed. -/
def follow : Spot → List String → List String → Option Spot
  | spot, _, [] => some spot
  | spot, passed, segment :: rest =>
      (graph.enter choice spot (passed ++ [segment]) segment).bind
        (follow · (passed ++ [segment]) rest)

/-- What a path from the root leads to. -/
def reach (path : List String) : Option Spot :=
  graph.follow choice ⟨graph.root.entity, graph.store.fieldsOf graph.root⟩ [] path

/-- The targets of the association, or the elements of the collection, at the end of a path. -/
def targets (path : List String) : List Binding :=
  match path.getLast?, graph.reach choice path.dropLast with
  | some last, some spot => Store.bindings (spot.fields.get? last)
  | _, _ => []

/-! ## Values -/

/-- The value of the declared identifier of a row. -/
def identity (row : RowRef) : Value :=
  match graph.metadata.identifier row.entity with
  | none => .null
  | some name =>
      match (graph.store.fieldsOf row).get? name with
      | some (.value value) => value
      | _ => .null

/-- The value of a property: that of an attribute, of the identifier of an entity, or of an
element, where a collection stands for what is chosen in it.  What is not there is null, and
so is a composite. -/
def content (place : Nat) : PropertyKind → Option Datum → Value
  | .attribute _, some (.value value) => value
  | .association _ .single, some (.reference (some row)) => graph.identity row
  | .association _ .collection, some (.references rows) =>
      (rows[place]?.map graph.identity).getD .null
  | .elements _, some (.elements values) => values[place]?.getD .null
  | _, _ => .null

/-- The value that a selector stands for. -/
def value (path : List String) : Value :=
  match path.getLast?, graph.reach choice path.dropLast with
  | some last, some spot =>
      match graph.metadata.property spot.owner last with
      | some kind => graph.content (choice path) kind (spot.fields.get? last)
      | none => .null
  | _, _ => .null

/-- Whether a comparison holds. -/
def accepts (literals : Literals) (node : Comparison) : Bool :=
  let path := Text.segments node.selector
  match ComparisonOperator.parse? node.operator,
    graph.metadata.selectorType graph.root.entity path with
  | some operator, .ok type =>
      literals.accepts operator type node.arguments (graph.value choice path)
  | _, _ => false

/-! ## Ways to match -/

/-- Whether targets are chosen at some paths, and nowhere else. -/
structure Permits (paths : List (List String)) : Prop where
  eq_zero : ∀ path, path ∉ paths → choice path = 0
  lt_length : ∀ path ∈ paths, choice path < (graph.targets choice path).length

/-- The choices, at the paths that a filter joins, with which the filter holds. -/
def matching (graph : ObjectGraph) (literals : Literals) (filter : Filter) : Set Choice :=
  {choice | graph.Permits choice (filter.joinedPaths graph.metadata graph.root.entity) ∧
    filter.evaluate (graph.accepts choice literals)}

/-- The number of ways in which targets can be chosen such that a filter holds. -/
noncomputable def ways (graph : ObjectGraph) (literals : Literals) (filter : Filter) : Nat :=
  (graph.matching literals filter).ncard

variable {graph : ObjectGraph} {choice : Choice}

@[simp]
theorem content_none (graph : ObjectGraph) (place : Nat) (kind : PropertyKind) :
    graph.content place kind none = .null := by
  rcases kind with type | inner | ⟨target, single | collection⟩ | type <;> rfl

theorem Permits.exists_target {paths : List (List String)} (permits : graph.Permits choice paths)
    {path : List String} (member : path ∈ paths) :
    ∃ target ∈ graph.targets choice path,
      (graph.targets choice path)[choice path]? = some target :=
  ⟨_, List.getElem_mem (permits.lt_length path member), List.getElem?_eq_getElem _⟩

/-! ## Following paths -/

theorem follow_append (spot : Spot) (passed path more : List String) :
    graph.follow choice spot passed (path ++ more) =
      (graph.follow choice spot passed path).bind
        (graph.follow choice · (passed ++ path) more) := by
  induction path generalizing spot passed with
  | nil => simp [follow]
  | cons segment path ih =>
      simp only [List.cons_append, follow, Option.bind_assoc]
      congr 1
      funext next
      rw [ih, List.append_assoc, List.singleton_append]

theorem reach_append (path more : List String) :
    graph.reach choice (path ++ more) =
      (graph.reach choice path).bind (graph.follow choice · path more) := by
  rw [reach, follow_append, List.nil_append]
  rfl

/-- A path leads to the type that metadata says. -/
theorem locate_of_follow {spot next : Spot} {passed path : List String}
    (h : graph.follow choice spot passed path = some next) (embedded : List String) :
    ∃ remembered, graph.metadata.locate ⟨spot.owner, embedded⟩ path =
      some ⟨next.owner, remembered⟩ := by
  induction path generalizing spot passed embedded with
  | nil =>
      cases h
      exact ⟨embedded, rfl⟩
  | cons segment rest ih =>
      rcases Option.bind_eq_some_iff.mp h with ⟨middle, entered, followed⟩
      unfold enter at entered
      rw [Metadata.locate]
      split at entered
      · rename_i inner property
        cases entered
        simp only [property]
        exact ih followed _
      · rename_i target cardinality property
        have owner_eq : middle.owner = target := by
          split at entered <;> cases entered
          rfl
        simp only [property, ← owner_eq]
        exact ih followed _
      · cases entered

/-- Within an entity no choice is made, and fields are found as navigation finds them. -/
theorem exists_follow_of_compositeAt? {owner inner : EntityId} {front : List String}
    (composite : graph.metadata.compositeAt? owner front = some inner) (record : Record)
    (passed : List String) :
    ∃ fields, graph.follow choice ⟨owner, record⟩ passed front = some ⟨inner, fields⟩ ∧
      ∀ last, Keyed.get? fields last = record.navigate? (front ++ [last]) := by
  induction front generalizing owner record passed with
  | nil =>
      cases composite
      exact ⟨record, rfl, fun _ => rfl⟩
  | cons segment front ih =>
      simp only [Metadata.compositeAt?] at composite
      split at composite
      · rename_i next property
        rcases ih composite (record.composite segment) (passed ++ [segment]) with
          ⟨reached, followed, found⟩
        refine ⟨reached, ?_, ?_⟩
        · simp only [follow, enter, property, Option.bind_some]
          exact followed
        · intro last
          rw [found, List.cons_append, record.navigate?_composite segment (by simp)]
      · cases composite

end ObjectGraph

end FilterQuery
