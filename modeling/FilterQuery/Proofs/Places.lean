import FilterQuery.Query
import Mathlib.Data.List.Basic

/-!
# Places in a schema

A path through composites stays within an entity; an association leads into the next
one.  Metadata alone decides which it is, so a list of segments has at most one place
that it leads to, and the place remembers the composites passed since the last
association.  This is what makes the division of a path into joins unique.
-/

namespace FilterQuery

/-- What a join over a property leads to, if the property can be joined. -/
def PropertyKind.joinTarget? : PropertyKind → Option JoinTarget
  | .association target _ => some (.entity target)
  | .elements type => some (.elements type)
  | _ => none

namespace Metadata

variable (metadata : Metadata)

/-! ## Within an entity -/

/-- The type at the end of a path through composites. -/
def compositeAt? : EntityId → List String → Option EntityId
  | owner, [] => some owner
  | owner, segment :: rest =>
      match metadata.property owner segment with
      | some (.embedded inner) => compositeAt? inner rest
      | _ => none

/-- The property at the end of a path that passes through composites only. -/
def propertyAt? : EntityId → List String → Option PropertyKind
  | _, [] => none
  | owner, [last] => metadata.property owner last
  | owner, segment :: rest =>
      match metadata.property owner segment with
      | some (.embedded inner) => propertyAt? inner rest
      | _ => none

@[simp]
theorem compositeAt?_nil (owner : EntityId) : metadata.compositeAt? owner [] = some owner :=
  rfl

@[simp]
theorem propertyAt?_nil (owner : EntityId) : metadata.propertyAt? owner [] = none :=
  rfl

@[simp]
theorem propertyAt?_singleton (owner : EntityId) (last : String) :
    metadata.propertyAt? owner [last] = metadata.property owner last :=
  rfl

theorem propertyAt?_cons_of_ne_nil (owner : EntityId) (segment : String) {rest : List String}
    (h : rest ≠ []) :
    metadata.propertyAt? owner (segment :: rest) =
      match metadata.property owner segment with
      | some (.embedded inner) => metadata.propertyAt? inner rest
      | _ => none := by
  rcases List.exists_cons_of_ne_nil h with ⟨next, others, rfl⟩
  rfl

theorem compositeAt?_append (owner : EntityId) (path more : List String) :
    metadata.compositeAt? owner (path ++ more) =
      (metadata.compositeAt? owner path).bind (metadata.compositeAt? · more) := by
  induction path generalizing owner with
  | nil => rfl
  | cons segment path ih =>
      simp only [List.cons_append, compositeAt?]
      split
      · exact ih _
      · rfl

/-- All segments but the last one name composites. -/
theorem propertyAt?_append_singleton (owner : EntityId) (path : List String) (last : String) :
    metadata.propertyAt? owner (path ++ [last]) =
      (metadata.compositeAt? owner path).bind (metadata.property · last) := by
  induction path generalizing owner with
  | nil => rfl
  | cons segment path ih =>
      obtain ⟨next, rest, hrest⟩ := List.exists_cons_of_ne_nil
        (List.append_ne_nil_of_right_ne_nil path (List.cons_ne_nil last []))
      simp only [List.cons_append, compositeAt?, hrest, propertyAt?]
      split
      · rw [← hrest]
        exact ih _
      · rfl

/-- A path to a property is a path to a composite, followed by a property of it. -/
theorem exists_of_propertyAt?_eq_some {owner : EntityId} {path : List String}
    {kind : PropertyKind} (h : metadata.propertyAt? owner path = some kind) :
    ∃ front last inner, path = front ++ [last] ∧
      metadata.compositeAt? owner front = some inner ∧
      metadata.property inner last = some kind := by
  rcases path.eq_nil_or_concat' with rfl | ⟨front, last, rfl⟩
  · simp at h
  · rw [propertyAt?_append_singleton] at h
    rcases Option.bind_eq_some_iff.mp h with ⟨inner, hinner, hkind⟩
    exact ⟨front, last, inner, rfl, hinner, hkind⟩

/-- A property behind a path makes each segment of the path a composite. -/
theorem compositeAt?_isSome_of_propertyAt? {owner : EntityId} {path more : List String}
    {kind : PropertyKind} (h : metadata.propertyAt? owner (path ++ more) = some kind)
    (hmore : more ≠ []) : ∃ inner, metadata.compositeAt? owner path = some inner := by
  rcases metadata.exists_of_propertyAt?_eq_some h with ⟨front, last, inner, hpath, hfront, -⟩
  rcases more.eq_nil_or_concat'.resolve_left hmore with ⟨middle, other, rfl⟩
  rw [← List.append_assoc] at hpath
  rcases List.append_inj' hpath rfl with ⟨rfl, -⟩
  rw [compositeAt?_append] at hfront
  rcases Option.bind_eq_some_iff.mp hfront with ⟨reached, hreached, -⟩
  exact ⟨reached, hreached⟩

/-- An association path leads to the target of the property at its end. -/
theorem associationTarget_eq_ok_some_iff {owner : EntityId} {path : List String}
    {target : JoinTarget} :
    Query.associationTarget metadata owner path = .ok (some target) ↔
      ∃ kind, metadata.propertyAt? owner path = some kind ∧ kind.joinTarget? = some target := by
  fun_induction Query.associationTarget metadata owner path with
  | case1 => simp
  | case2 owner last inner cardinality hkind => simp [hkind, PropertyKind.joinTarget?]
  | case3 owner last type hkind => simp [hkind, PropertyKind.joinTarget?]
  | case4 owner last hassociation helements =>
      simp only [reduceCtorEq, propertyAt?_singleton, false_iff, not_exists, not_and]
      intro kind hkind
      cases kind <;> simp_all [PropertyKind.joinTarget?]
  | case5 owner segment rest hrest inner hkind ih =>
      rcases List.exists_cons_of_ne_nil hrest with ⟨next, others, rfl⟩
      simpa [propertyAt?, hkind] using ih
  | case6 owner segment rest hrest hkind =>
      rcases List.exists_cons_of_ne_nil hrest with ⟨next, others, rfl⟩
      simp [propertyAt?]

/-! ## From entity to entity -/

/-- A place in a schema. -/
structure Place where
  /-- The type whose properties come next. -/
  owner : EntityId
  /-- The composites passed since an entity was entered. -/
  embedded : List String

/-- The place that segments lead to, through composites and associations. -/
def locate : Place → List String → Option Place
  | place, [] => some place
  | place, segment :: rest =>
      match metadata.property place.owner segment with
      | some (.embedded inner) => locate ⟨inner, place.embedded ++ [segment]⟩ rest
      | some (.association target _) => locate ⟨target, []⟩ rest
      | _ => none

@[simp]
theorem locate_nil (place : Place) : metadata.locate place [] = some place :=
  rfl

theorem locate_append (place : Place) (path more : List String) :
    metadata.locate place (path ++ more) =
      (metadata.locate place path).bind (metadata.locate · more) := by
  induction path generalizing place with
  | nil => rfl
  | cons segment path ih =>
      simp only [List.cons_append, locate]
      split
      · exact ih _
      · exact ih _
      · rfl

/-- A path through composites is remembered whole. -/
theorem locate_of_compositeAt? {place : Place} {path : List String} {inner : EntityId}
    (h : metadata.compositeAt? place.owner path = some inner) :
    metadata.locate place path = some ⟨inner, place.embedded ++ path⟩ := by
  induction path generalizing place with
  | nil =>
      obtain rfl : place.owner = inner := by simpa using h
      simp
  | cons segment path ih =>
      simp only [compositeAt?] at h
      split at h
      · rename_i next hnext
        rw [locate, hnext]
        let entered : Place := ⟨next, place.embedded ++ [segment]⟩
        have rest_eq : metadata.locate entered path = some ⟨inner, entered.embedded ++ path⟩ :=
          ih h
        simpa [entered] using rest_eq
      · cases h

/-- An association path leads to the entity at its end, and nothing of it is remembered. -/
theorem locate_of_propertyAt? {place : Place} {path : List String} {target : EntityId}
    {cardinality : Cardinality}
    (h : metadata.propertyAt? place.owner path = some (.association target cardinality)) :
    metadata.locate place path = some ⟨target, []⟩ := by
  rcases metadata.exists_of_propertyAt?_eq_some h with ⟨front, last, inner, rfl, hfront, hlast⟩
  rw [locate_append, metadata.locate_of_compositeAt? hfront]
  simp [locate, hlast]

end Metadata

end FilterQuery
