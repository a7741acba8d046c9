import FilterQuery.Predicate.Json
import FilterQuery.Proofs.Store.Evaluation
import FilterQuery.Proofs.Value.RoundTrip

/-!
# Reading written predicates

The JSON text of a predicate is read back exactly if every value in it is.  A join id has to
fit 32 bits, which it is declared with, and groups must not stand so deep inside each
other that the reader gives up.
-/

namespace FilterQuery

open FilterQuery.Json FilterQuery.Number

/-! ## Paths -/

/-- The id of a join fits a word of 32 bits. -/
def Context.FitsWord : Context → Prop
  | .root => True
  | .join id => (id : Int) < ordinalLimit

theorem Context.reread_toJson {context : Context} (hfits : context.FitsWord) {room : Nat}
    (hroom : room ≠ 0) : context.toJson.reread room = context.toJson := by
  cases context with
  | root => rfl
  | join id =>
      have hlt : (id : Int) < ordinalLimit := hfits
      have hvalue : (Numeral.ofWhole id).value = .whole id :=
        Numeral.value_ofWhole (by unfold wordLimit; omega)
          (by unfold ordinalLimit at hlt; unfold wordLimit; omega)
      simp only [Context.toJson, reread, hroom, if_false, rereadMembers, hvalue]

theorem Context.ofJson?_join (id : Json) :
    Context.ofJson? (.object [("Join", id)]) =
      (id.wholeWithin? 0 ordinalLimit).map fun id => .join id.toNat := by
  cases id <;> rfl

theorem Context.ofJson?_toJson {context : Context} (hfits : context.FitsWord) :
    Context.ofJson? context.toJson = some context := by
  cases context with
  | root => rfl
  | join id =>
      have hlt : (id : Int) < ordinalLimit := hfits
      rw [Context.toJson, Context.ofJson?_join,
        Value.wholeWithin?_of_fits (Int.natCast_nonneg id) hlt, Option.map_some,
        Int.toNat_natCast]

namespace AttributePath

variable {path : AttributePath}

theorem reread_toJson (hfits : path.root.FitsWord) {room : Nat} (hroom : 2 ≤ room) :
    path.toJson.reread room = path.toJson := by
  have hroot := Context.reread_toJson hfits (show room - 1 ≠ 0 by omega)
  rw [toJson, reread, if_neg (by omega), rereadMembers, rereadMembers, rereadMembers, hroot,
    reread, if_neg (by omega), rereadItems_map_text]

theorem ofJson?_toJson (hfits : path.root.FitsWord) :
    AttributePath.ofJson? path.toJson = some path := by
  have hread : AttributePath.ofJson? path.toJson =
      (Context.ofJson? path.root.toJson).bind fun context =>
        (Json.array (path.segments.map .text)).texts?.bind fun segments =>
          some { root := context, segments } := rfl
  rw [hread, Context.ofJson?_toJson hfits, texts?_map_text]
  rfl

end AttributePath

namespace Predicate

/-! ## Parts of a predicate -/

/-- The path of a leaf. -/
def path? : Predicate → Option AttributePath
  | .compare path _ _ => some path
  | .like path _ _ => some path
  | .isNull path _ => some path
  | .isIn path _ _ => some path
  | .and _ | .or _ => none

/-- The values of a leaf. -/
def leafValues : Predicate → List Value
  | .compare _ _ value => [value]
  | .isIn _ values _ => values
  | _ => []

/-- Every id of a join in the predicate fits a word of 32 bits. -/
def FitsWord (predicate : Predicate) : Prop :=
  ∀ leaf ∈ predicate.leaves, ∀ path ∈ leaf.path?, path.root.FitsWord

/-- Every value in the predicate comes through its text unchanged. -/
def Survives (predicate : Predicate) : Prop :=
  ∀ leaf ∈ predicate.leaves, ∀ value ∈ leaf.leafValues, value.Survives

mutual
/-- How deep groups stand inside each other. -/
def nesting : Predicate → Nat
  | .and children => nestingOfChildren children + 1
  | .or children => nestingOfChildren children + 1
  | _ => 0

def nestingOfChildren : List Predicate → Nat
  | [] => 0
  | child :: children => max child.nesting (nestingOfChildren children)
end

/-! ## Leaves -/

theorem leafOfJson?_compare (path op value : Json) :
    leafOfJson? "Compare" (.object [("path", path), ("op", op), ("value", value)]) =
      (AttributePath.ofJson? path).bind fun path => (CompareOp.ofJson? op).bind fun op =>
        (Value.ofJson? value).bind fun value => some (.compare path op value) :=
  rfl

theorem leafOfJson?_like (path pattern negated : Json) :
    leafOfJson? "Like" (.object [("path", path), ("pattern", pattern), ("negated", negated)]) =
      (AttributePath.ofJson? path).bind fun path => pattern.text?.bind fun pattern =>
        negated.bool?.bind fun negated => some (.like path pattern negated) :=
  rfl

theorem leafOfJson?_isNull (path negated : Json) :
    leafOfJson? "IsNull" (.object [("path", path), ("negated", negated)]) =
      (AttributePath.ofJson? path).bind fun path => negated.bool?.bind fun negated =>
        some (.isNull path negated) :=
  rfl

theorem leafOfJson?_isIn (path values negated : Json) :
    leafOfJson? "In" (.object [("path", path), ("values", values), ("negated", negated)]) =
      (AttributePath.ofJson? path).bind fun path => (valuesOfJson? values).bind fun values =>
        negated.bool?.bind fun negated => some (.isIn path values negated) :=
  rfl

variable {room : Nat} {path : AttributePath}

theorem ofJson?_object (kind : String) (parts : List (String × Json)) :
    ofJson? (.object [(kind, .object parts)]) = leafOfJson? kind (.object parts) := by
  rw [ofJson?]
  · rintro items - ⟨⟩
  · rintro items - ⟨⟩

/-- The kind and the path of a leaf are read back, whatever its other parts are. -/
theorem ofJson?_reread_leaf (hroom : 4 ≤ room) (hfits : path.root.FitsWord) (kind : String)
    (parts : List (String × Json)) :
    ofJson? ((Json.object [(kind, .object (("path", path.toJson) :: parts))]).reread room) =
      leafOfJson? kind
        (.object (("path", path.toJson) :: rereadMembers (room - 1 - 1) parts)) := by
  have hpath := AttributePath.reread_toJson hfits (show 2 ≤ room - 1 - 1 by omega)
  rw [reread, if_neg (by omega), rereadMembers, rereadMembers, reread, if_neg (by omega),
    rereadMembers, hpath, ofJson?_object]

theorem ofJson?_reread_compare_iff (hroom : 4 + 1 ≤ room) (hfits : path.root.FitsWord)
    (op : CompareOp) (value : Value) :
    ofJson? ((compare path op value).toJson.reread room) = some (compare path op value) ↔
      value.Survives := by
  have hop : CompareOp.ofJson? (.text op.name) = some op := CompareOp.ofName?_name op
  have hread : ofJson? ((compare path op value).toJson.reread room) =
      value.reread.map (compare path op) := by
    rw [toJson, ofJson?_reread_leaf (by omega) hfits, rereadMembers, rereadMembers, rereadMembers,
      leafOfJson?_compare, AttributePath.ofJson?_toJson hfits, reread, hop,
      Value.ofJson?_reread_toJson value (by omega)]
    cases value.reread <;> rfl
  rw [hread, ← Value.reread_eq_some_iff]
  cases value.reread <;> simp

theorem ofJson?_reread_like (hroom : 4 ≤ room) (hfits : path.root.FitsWord) (pattern : String)
    (negated : Bool) :
    ofJson? ((like path pattern negated).toJson.reread room) =
      some (like path pattern negated) := by
  rw [toJson, ofJson?_reread_leaf hroom hfits, rereadMembers, rereadMembers, rereadMembers,
    leafOfJson?_like, AttributePath.ofJson?_toJson hfits]
  rfl

theorem ofJson?_reread_isNull (hroom : 4 ≤ room) (hfits : path.root.FitsWord)
    (negated : Bool) :
    ofJson? ((isNull path negated).toJson.reread room) = some (isNull path negated) := by
  rw [toJson, ofJson?_reread_leaf hroom hfits, rereadMembers, rereadMembers,
    leafOfJson?_isNull, AttributePath.ofJson?_toJson hfits]
  rfl

/-- A list of values takes one more level than a value. -/
theorem ofJson?_reread_isIn_iff (hroom : 4 + 1 ≤ room) (hfits : path.root.FitsWord)
    (values : List Value) (negated : Bool) :
    ofJson? ((isIn path values negated).toJson.reread room) =
        some (isIn path values negated) ↔
      ∀ value ∈ values, value.Survives := by
  have hitems : (Json.array (values.map Value.toJson)).reread (room - 1 - 1) =
      .array (values.map fun value => value.toJson.reread (room - 1 - 1 - 1)) := by
    rw [reread, if_neg (by omega), rereadItems_eq_map, List.map_map]
    rfl
  have hread : ofJson? ((isIn path values negated).toJson.reread room) =
      (valuesOfJson? (.array (values.map fun value =>
        value.toJson.reread (room - 1 - 1 - 1)))).map fun values => isIn path values negated := by
    rw [toJson, ofJson?_reread_leaf (by omega) hfits, rereadMembers, rereadMembers, rereadMembers,
      hitems, leafOfJson?_isIn, AttributePath.ofJson?_toJson hfits]
    cases valuesOfJson? (.array (values.map fun value =>
      value.toJson.reread (room - 1 - 1 - 1))) <;> rfl
  have hvalues : valuesOfJson? (.array (values.map fun value =>
        value.toJson.reread (room - 1 - 1 - 1))) = some values ↔
      ∀ value ∈ values, value.Survives := by
    refine (mapM_map_eq_some_iff _ Value.ofJson? values).trans (forall₂_congr fun value _ => ?_)
    rw [Value.ofJson?_reread_toJson value (by omega), Value.reread_eq_some_iff]
  rw [hread, ← hvalues]
  cases valuesOfJson? (.array (values.map fun value =>
    value.toJson.reread (room - 1 - 1 - 1))) <;> simp

/-! ## Groups -/

theorem reread_group (hroom : 2 ≤ room) (kind : String) (items : List Json) :
    (Json.object [(kind, .array items)]).reread room =
      .object [(kind, .array (rereadItems (room - 2) items))] := by
  rw [reread, if_neg (by omega), rereadMembers, rereadMembers, reread, if_neg (by omega)]
  rfl

-- The induction is on the predicate with the room that is left: a group takes two levels
-- off it, and each leaf still finds its five.
mutual
/-- A predicate is read back exactly if its values are: one case for each kind of
condition. -/
theorem ofJson?_reread_toJson_iff : (predicate : Predicate) → {room : Nat} →
    2 * predicate.nesting + 5 ≤ room → predicate.FitsWord →
      (ofJson? (predicate.toJson.reread room) = some predicate ↔ predicate.Survives)
  | .compare path op value, room, hroom, hfits => by
      have hpath := hfits (compare path op value) (List.mem_singleton_self _) path rfl
      rw [ofJson?_reread_compare_iff hroom hpath]
      simp [Survives, leaves, leafValues]
  | .like path pattern negated, room, hroom, hfits => by
      have hpath := hfits (like path pattern negated) (List.mem_singleton_self _) path rfl
      rw [ofJson?_reread_like (by omega) hpath]
      simp [Survives, leaves, leafValues]
  | .isNull path negated, room, hroom, hfits => by
      have hpath := hfits (isNull path negated) (List.mem_singleton_self _) path rfl
      rw [ofJson?_reread_isNull (by omega) hpath]
      simp [Survives, leaves, leafValues]
  | .isIn path values negated, room, hroom, hfits => by
      have hpath := hfits (isIn path values negated) (List.mem_singleton_self _) path rfl
      rw [ofJson?_reread_isIn_iff hroom hpath]
      simp [Survives, leaves, leafValues]
  | .and children, room, hroom, hfits => by
      rw [nesting] at hroom
      have hchildren := childrenOfJson?_reread_iff children (show _ ≤ room - 2 by omega) hfits
      rw [toJson, reread_group (by omega), ofJson?, Survives, leaves, ← hchildren]
      simp
  | .or children, room, hroom, hfits => by
      rw [nesting] at hroom
      have hchildren := childrenOfJson?_reread_iff children (show _ ≤ room - 2 by omega) hfits
      rw [toJson, reread_group (by omega), ofJson?, Survives, leaves, ← hchildren]
      simp

theorem childrenOfJson?_reread_iff : (children : List Predicate) → {room : Nat} →
    2 * nestingOfChildren children + 5 ≤ room →
    (∀ leaf ∈ leavesOfChildren children, ∀ path ∈ leaf.path?, path.root.FitsWord) →
      (childrenOfJson? (rereadItems room (childrenToJson children)) = some children ↔
        ∀ leaf ∈ leavesOfChildren children, ∀ value ∈ leaf.leafValues, value.Survives)
  | [], _, _, _ => by simp [childrenToJson, rereadItems, childrenOfJson?, leavesOfChildren]
  | child :: children, room, hroom, hfits => by
      rw [nestingOfChildren] at hroom
      rw [leavesOfChildren, List.forall_mem_append] at hfits
      have hchild := ofJson?_reread_toJson_iff child (show _ ≤ room by omega) hfits.1
      have hchildren := childrenOfJson?_reread_iff children (show _ ≤ room by omega) hfits.2
      rw [Survives] at hchild
      rw [leavesOfChildren, List.forall_mem_append, ← hchild, ← hchildren, childrenToJson,
        rereadItems, childrenOfJson?, Option.bind_eq_bind]
      cases ofJson? (child.toJson.reread room) with
      | none => simp
      | some first =>
          cases childrenOfJson? (rereadItems room (childrenToJson children)) with
          | none => simp
          | some others => simp
end

/-- Groups may stand this deep inside each other: a group takes two levels of the text and
a leaf up to five. -/
def deepestNesting : Nat := 61

/-- A predicate is read back from its text exactly if its values are. -/
theorem ofJsonText?_toJsonText_iff {predicate : Predicate}
    (hnesting : predicate.nesting ≤ deepestNesting) (hfits : predicate.FitsWord) :
    ofJsonText? predicate.toJsonText = some predicate ↔ predicate.Survives := by
  unfold deepestNesting at hnesting
  rw [ofJsonText?, toJsonText, parse?_write]
  exact ofJson?_reread_toJson_iff predicate (by unfold deepest; omega) hfits

end Predicate

end FilterQuery
