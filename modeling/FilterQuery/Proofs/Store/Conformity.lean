import FilterQuery.Proofs.Places
import FilterQuery.Store.Execution

/-!
# Stores that conform to metadata

A store conforms to metadata if the root of a query and every target of an association have
a table, identified by the declared field, and if the fields of its rows are absent or hold
what their properties declare, also inside composites.  A reference leads to a row of the
declared target.  Navigation through composites then finds what the property at the end of
the path declares.
-/

namespace FilterQuery

variable {metadata : Metadata} {store : Store}

/-- Whether a row is in the store. -/
def Store.HasRow (store : Store) (row : RowRef) : Prop :=
  ∃ table, store.get? row.entity = some table ∧ row.row < table.rows.length

/-- A row of an entity that is in the store. -/
def Store.RowOf (store : Store) (entity : EntityId) (row : RowRef) : Prop :=
  row.entity = entity ∧ store.HasRow row

/-- A content that is what a property declares. -/
inductive Datum.Conforms (metadata : Metadata) (store : Store) : PropertyKind → Datum → Prop
  | value (type : AttributeType) (value : Value) :
      Conforms metadata store (.attribute type) (.value value)
  | embedded {inner : EntityId} {fields : Record}
      (each : ∀ name kind datum, metadata.property inner name = some kind →
        fields.get? name = some datum → Conforms metadata store kind datum) :
      Conforms metadata store (.embedded inner) (.embedded fields)
  | reference {target : EntityId} {row? : Option RowRef}
      (found : ∀ row, row? = some row → store.RowOf target row) :
      Conforms metadata store (.association target .single) (.reference row?)
  | references {target : EntityId} {rows : List RowRef}
      (found : ∀ row ∈ rows, store.RowOf target row) :
      Conforms metadata store (.association target .collection) (.references rows)
  | elements (type : AttributeType) (values : List Value) :
      Conforms metadata store (.elements type) (.elements values)

/-- Fields that are what the properties of a type declare. -/
def Record.Conforms (metadata : Metadata) (store : Store) (owner : EntityId) (record : Record) :
    Prop :=
  ∀ name kind datum, metadata.property owner name = some kind →
    record.get? name = some datum → datum.Conforms metadata store kind

/-- Whether queries for a root need a table of an entity. -/
def Metadata.NeedsTable (metadata : Metadata) (root entity : EntityId) : Prop :=
  entity = root ∨ ∃ owner name cardinality,
    metadata.property owner name = some (.association entity cardinality)

/-- A table as the metadata of its entity declares it. -/
structure Table.Conforms (metadata : Metadata) (store : Store) (entity : EntityId)
    (table : Table) : Prop where
  identifier_eq : ∀ name, metadata.identifier entity = some name → table.identifier = name
  rows : ∀ record ∈ table.rows, record.Conforms metadata store entity

/-- A store in which queries for a root find what metadata declares. -/
def Store.Conforms (metadata : Metadata) (root : EntityId) (store : Store) : Prop :=
  ∀ entity, metadata.NeedsTable root entity →
    ∃ table, store.get? entity = some table ∧ table.Conforms metadata store entity

/-! ## Navigation -/

/-- Nothing is found without fields. -/
theorem Record.navigate?_nil (path : List String) : Record.navigate? [] path = none := by
  match path with
  | [] => rfl
  | [_] => rfl
  | _ :: _ :: _ => rfl

theorem Record.navigate?_cons_of_ne_nil (record : Record) (segment : String) {rest : List String}
    (h : rest ≠ []) :
    record.navigate? (segment :: rest) =
      match record.get? segment with
      | some (.embedded fields) => Record.navigate? fields rest
      | _ => none := by
  rcases List.exists_cons_of_ne_nil h with ⟨next, others, rfl⟩
  rfl

/-- What is found at the end of a path is what its property declares. -/
theorem Record.Conforms.navigate? {owner : EntityId} {record : Record}
    (conforms : record.Conforms metadata store owner) {path : List String} {kind : PropertyKind}
    {datum : Datum} (kind_eq : metadata.propertyAt? owner path = some kind)
    (found : record.navigate? path = some datum) : datum.Conforms metadata store kind := by
  induction path generalizing owner record with
  | nil => cases found
  | cons segment rest ih =>
      by_cases last : rest = []
      · subst last
        exact conforms segment kind datum kind_eq found
      · rw [metadata.propertyAt?_cons_of_ne_nil owner segment last] at kind_eq
        rw [record.navigate?_cons_of_ne_nil segment last] at found
        split at kind_eq
        · rename_i inner property
          split at found
          · rename_i fields entry
            cases conforms segment _ _ property entry with
            | embedded each => exact ih each kind_eq found
          · cases found
        · cases kind_eq

/-! ## Rows -/

theorem Store.HasRow.exists_record {row : RowRef} (found : store.HasRow row) :
    ∃ table record, store.get? row.entity = some table ∧ table.rows[row.row]? = some record ∧
      store.record row = .ok record := by
  rcases found with ⟨table, table_eq, inside⟩
  have record_eq := List.getElem?_eq_getElem inside
  refine ⟨table, table.rows[row.row], table_eq, record_eq, ?_⟩
  simp [Store.record, Store.table, table_eq, record_eq, bind, Except.bind]

/-- A row of an entity that has a table conforms to the entity. -/
theorem Store.Conforms.exists_record {root entity : EntityId}
    (conforms : store.Conforms metadata root)
    (needed : metadata.NeedsTable root entity) {row : RowRef} (found : store.RowOf entity row) :
    ∃ record, store.record row = .ok record ∧ record.Conforms metadata store entity := by
  rcases found with ⟨rfl, found⟩
  rcases found.exists_record with ⟨table, record, table_eq, record_eq, reads⟩
  rcases conforms _ needed with ⟨table', table_eq', declared⟩
  obtain rfl : table = table' := Option.some.inj (table_eq.symm.trans table_eq')
  exact ⟨record, reads, declared.rows record (List.mem_of_getElem? record_eq)⟩

/-- A row that is there has an identifying value, which may be null. -/
theorem Store.HasRow.exists_identifierOf {row : RowRef} (found : store.HasRow row) :
    ∃ value, store.identifierOf row = .ok value := by
  rcases found.exists_record with ⟨table, record, table_eq, -, record_eq⟩
  simp only [Store.identifierOf, Store.table, table_eq, record_eq, bind, Except.bind]
  split
  · exact ⟨_, rfl⟩
  · exact ⟨_, rfl⟩

/-! ## A company -/

/-- Departments with their members, and employees with their skills and a chief. -/
def company : Schema :=
  [(⟨1⟩, { name := "Department", identifier := some "id",
           properties := [("id", .attribute .integer),
             ("members", .association ⟨2⟩ .collection)] }),
   (⟨2⟩, { name := "Employee", identifier := some "id",
           properties := [("id", .attribute .integer), ("chief", .association ⟨2⟩ .single),
             ("skills", .elements .text)] })]

/-- A department of two employees, and one without any. -/
def companyStore : Store :=
  [(⟨1⟩, { identifier := "id"
           rows := [[("id", .value (.int 1)), ("members", .references [⟨⟨2⟩, 0⟩, ⟨⟨2⟩, 1⟩])],
             [("id", .value (.int 2))]] }),
   (⟨2⟩, { identifier := "id"
           rows := [[("id", .value (.int 1)), ("skills", .elements [.text "lean", .text "go"])],
             [("id", .value (.int 2)), ("chief", .reference (some ⟨⟨2⟩, 0⟩))]] })]

theorem mem_of_company_property {owner : EntityId} {name : String} {kind : PropertyKind}
    (h : company.metadata.property owner name = some kind) :
    (owner, name, kind) ∈
      [(⟨1⟩, "id", .attribute .integer), (⟨1⟩, "members", .association ⟨2⟩ .collection),
        (⟨2⟩, "id", .attribute .integer), (⟨2⟩, "chief", .association ⟨2⟩ .single),
        ((⟨2⟩ : EntityId), "skills", PropertyKind.elements .text)] := by
  rcases Option.bind_eq_some_iff.mp h with ⟨declaration, declared, property⟩
  have entry := Keyed.mem_of_get?_eq_some declared
  have field := Keyed.mem_of_get?_eq_some property
  simp only [company, List.mem_cons, Prod.mk.injEq, List.not_mem_nil, or_false] at entry
  rcases entry with ⟨rfl, rfl⟩ | ⟨rfl, rfl⟩
  · rcases (by simpa using field) with ⟨rfl, rfl⟩ | ⟨rfl, rfl⟩ <;> simp
  · rcases (by simpa using field) with ⟨rfl, rfl⟩ | ⟨rfl, rfl⟩ | ⟨rfl, rfl⟩ <;> simp

/-- Queries for departments need the tables of departments and of employees. -/
theorem company_conforms {store : Store} {departments employees : Table}
    (departments_eq : store.get? ⟨1⟩ = some departments)
    (departments_conform : departments.Conforms company.metadata store ⟨1⟩)
    (employees_eq : store.get? ⟨2⟩ = some employees)
    (employees_conform : employees.Conforms company.metadata store ⟨2⟩) :
    store.Conforms company.metadata ⟨1⟩ := by
  intro entity needed
  have entity_eq : entity = ⟨1⟩ ∨ entity = ⟨2⟩ := by
    rcases needed with rfl | ⟨owner, name, cardinality, property⟩
    · exact .inl rfl
    · have declared := mem_of_company_property property
      simp at declared
      grind
  rcases entity_eq with rfl | rfl
  · exact ⟨departments, departments_eq, departments_conform⟩
  · exact ⟨employees, employees_eq, employees_conform⟩

theorem companyStore_conforms : companyStore.Conforms company.metadata ⟨1⟩ := by
  have employee (row : Nat) (inside : row < 2) : companyStore.RowOf ⟨2⟩ ⟨⟨2⟩, row⟩ :=
    ⟨rfl, _, rfl, inside⟩
  apply company_conforms rfl _ rfl
  · constructor
    · rintro name ⟨⟩
      rfl
    · intro record member name kind datum property field
      have declared := mem_of_company_property property
      simp at declared member
      rcases member with rfl | rfl <;>
        rcases declared with ⟨rfl, rfl⟩ | ⟨rfl, rfl⟩ | ⟨rfl, rfl⟩ <;> cases field
      all_goals constructor
      simp [employee]
  · constructor
    · rintro name ⟨⟩
      rfl
    · intro record member name kind datum property field
      have declared := mem_of_company_property property
      simp at declared member
      rcases member with rfl | rfl <;> rcases declared with ⟨rfl, rfl⟩ | ⟨rfl, rfl⟩ <;>
        cases field
      · constructor
      · constructor
        simp [employee]
      · constructor

end FilterQuery
