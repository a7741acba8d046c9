import FilterQuery.Filter.Json
import FilterQuery.Proofs.Json.RoundTrip

/-!
# Reading written filters

The JSON text of a filter is read back as the filter, whatever texts are in it, as long as the
reader does not give up on how deep its nodes stand inside each other.
-/

namespace FilterQuery.Filter

open FilterQuery.Json

/-! ## Levels -/

mutual
/-- How many arrays and objects stand inside each other in the JSON form of a filter. -/
def levels : Filter → Nat
  | .comparison _ => 2
  | .logical _ children => levelsOfChildren children + 2
  | .extension _ => 1

def levelsOfChildren : List Filter → Nat
  | [] => 0
  | child :: children => max child.levels (levelsOfChildren children)
end

mutual
/-- Where there is room for its levels, the JSON form of a filter is read as it was written. -/
theorem reread_toJson : (filter : Filter) → {room : Nat} → filter.levels ≤ room →
    filter.toJson.reread room = filter.toJson
  | .comparison node, room, fits => by
      rw [levels] at fits
      simp only [toJson, textsToJson, reread, rereadMembers, rereadItems_map_text,
        if_neg (show room ≠ 0 by omega), if_neg (show room - 1 ≠ 0 by omega)]
  | .logical operator children, room, fits => by
      rw [levels] at fits
      simp only [toJson, reread, rereadMembers, if_neg (show room ≠ 0 by omega),
        if_neg (show room - 1 ≠ 0 by omega),
        rereadItems_childrenToJson children (show _ ≤ room - 1 - 1 by omega)]
  | .extension kind, room, fits => by
      rw [levels] at fits
      simp only [toJson, reread, rereadMembers, if_neg (show room ≠ 0 by omega)]

theorem rereadItems_childrenToJson : (children : List Filter) → {room : Nat} →
    levelsOfChildren children ≤ room →
      rereadItems room (childrenToJson children) = childrenToJson children
  | [], _, _ => rfl
  | child :: children, room, fits => by
      rw [levelsOfChildren, Nat.max_le] at fits
      rw [childrenToJson, rereadItems, reread_toJson child fits.1,
        rereadItems_childrenToJson children fits.2]
end

mutual
/-- Where there is not, a part of it is lost. -/
theorem not_isReadable_reread : (filter : Filter) → {room : Nat} → room < filter.levels →
    (filter.toJson.reread room).isReadable = false
  | .comparison node, room, deep => by
      rw [levels] at deep
      rw [toJson, reread]
      split
      · rfl
      · simp [rereadMembers, reread, textsToJson, isReadable, membersReadable,
          show room - 1 = 0 by omega]
  | .logical operator children, room, deep => by
      rw [levels] at deep
      rw [toJson, reread]
      split
      · rfl
      · by_cases inner : room - 1 = 0
        · simp [rereadMembers, reread, isReadable, membersReadable, inner]
        · simp [rereadMembers, reread, isReadable, membersReadable, inner,
            not_areReadable_reread children (show room - 1 - 1 < _ by omega)]
  | .extension kind, room, deep => by
      rw [levels] at deep
      rw [toJson, reread, if_pos (by omega)]
      rfl

theorem not_areReadable_reread : (children : List Filter) → {room : Nat} →
    room < levelsOfChildren children →
      areReadable (rereadItems room (childrenToJson children)) = false
  | child :: children, room, deep => by
      rw [levelsOfChildren] at deep
      have either : room < child.levels ∨ room < levelsOfChildren children := by omega
      rw [childrenToJson, rereadItems, areReadable, Bool.and_eq_false_iff]
      exact either.imp (not_isReadable_reread child) (not_areReadable_reread children)
end

/-! ## Nodes -/

mutual
theorem isReadable_toJson : (filter : Filter) → filter.toJson.isReadable = true
  | .comparison node => by
      have texts : areReadable (node.arguments.map .text) = true := by
        induction node.arguments with
        | nil => rfl
        | cons argument arguments ih => rw [List.map_cons, areReadable, ih]; rfl
      simp [toJson, textsToJson, isReadable, membersReadable, texts]
  | .logical operator children => by
      simp [toJson, isReadable, membersReadable, areReadable_childrenToJson children]
  | .extension kind => rfl

theorem areReadable_childrenToJson : (children : List Filter) →
    areReadable (childrenToJson children) = true
  | [] => rfl
  | child :: children => by
      rw [childrenToJson, areReadable, isReadable_toJson child,
        areReadable_childrenToJson children]
      rfl
end

mutual
/-- The node of the JSON form of a filter is the filter. -/
theorem nodeOfJson?_toJson (numbered : Bool) : (filter : Filter) →
    nodeOfJson? numbered filter.toJson = some filter
  | .comparison node => by
      have read : nodeOfJson? numbered (Filter.comparison node).toJson =
          (textsToJson node.arguments).texts?.bind fun arguments =>
            some (.comparison { node with arguments }) := rfl
      rw [read, textsToJson, texts?_map_text]
      rfl
  | .logical operator children => by
      have read : nodeOfJson? numbered (Filter.logical operator children).toJson =
          (nodesOfJson? (childrenToJson children)).bind fun children =>
            some (.logical operator children) := rfl
      rw [read, nodesOfJson?_childrenToJson children]
      rfl
  | .extension kind => rfl

theorem nodesOfJson?_childrenToJson : (children : List Filter) →
    nodesOfJson? (childrenToJson children) = some children
  | [] => rfl
  | child :: children => by
      rw [childrenToJson, nodesOfJson?, nodeOfJson?_toJson true child,
        nodesOfJson?_childrenToJson children]
      rfl
end

/-- The JSON text of a filter is read back as the filter, or refused if its nodes are too deep
inside each other. -/
theorem ofJsonText?_toJsonText (filter : Filter) :
    ofJsonText? filter.toJsonText = if filter.levels ≤ deepest then some filter else none := by
  rw [ofJsonText?, toJsonText, parse?_write, Option.bind_some, ofJson?]
  by_cases fits : filter.levels ≤ deepest
  · rw [reread_toJson filter fits, if_pos filter.isReadable_toJson, if_pos fits]
    exact filter.nodeOfJson?_toJson false
  · rw [not_isReadable_reread filter (Nat.lt_of_not_le fits), if_neg fits]
    rfl

end FilterQuery.Filter
