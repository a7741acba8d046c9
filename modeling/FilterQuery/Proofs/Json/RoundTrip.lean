import FilterQuery.Json.Reader
import FilterQuery.Proofs.Json.Cutting

/-!
# Reading written JSON text

The tokens of a value bring the reader from where a value may start to where it is
complete, with the arrays and objects around it untouched.  Hence the text of a value
is always read, and as the value itself up to three things: numbers are read from
their numerals, what has no text is read as null, and an array or object too far
inside others is lost.
-/

namespace FilterQuery.Json

open Expecting

/-! ## What is read -/

mutual
/-- What is read from the text of a value in a place with room for so many more levels
of arrays and objects. -/
def reread (room : Nat) : Json → Json
  | .null => .null
  | .bool b => .bool b
  | .whole n => (Numeral.ofWhole n).value
  | .real x => rereadReal x
  | .text s => .text s
  | .array items => if room = 0 then .unreadable else .array (rereadItems (room - 1) items)
  | .object members =>
      if room = 0 then .unreadable else .object (rereadMembers (room - 1) members)
  | .unreadable => .null

def rereadItems (room : Nat) : List Json → List Json
  | [] => []
  | item :: items => item.reread room :: rereadItems room items

def rereadMembers (room : Nat) : List (String × Json) → List (String × Json)
  | [] => []
  | (name, value) :: members => (name, value.reread room) :: rereadMembers room members
end

theorem rereadItems_eq_map (room : Nat) (items : List Json) :
    rereadItems room items = items.map (reread room) := by
  induction items with
  | nil => rfl
  | cons item items ih => rw [rereadItems, ih, List.map_cons]

theorem rereadItems_map_text (room : Nat) (texts : List String) :
    rereadItems room (texts.map .text) = texts.map .text := by
  rw [rereadItems_eq_map, List.map_map]
  rfl

/-! ## Runs of the reader -/

/-- The reader comes from one state to another over the given tokens. -/
def Reads (state : Expecting) (tokens : List Token) (next : Expecting) : Prop :=
  tokens.foldlM step state = some next

theorem Reads.nil (state : Expecting) : Reads state [] state :=
  rfl

theorem Reads.cons {state middle next : Expecting} {token : Token} {tokens : List Token}
    (htoken : step state token = some middle) (h : Reads middle tokens next) :
    Reads state (token :: tokens) next := by
  unfold Reads at h ⊢
  rw [List.foldlM_cons, htoken]
  exact h

theorem Reads.trans {state middle next : Expecting} {first second : List Token}
    (hfirst : Reads state first middle) (hsecond : Reads middle second next) :
    Reads state (first ++ second) next := by
  unfold Reads at hfirst hsecond ⊢
  rw [List.foldlM_append, hfirst]
  exact hsecond

/-- The items of an array start where the array may also end. -/
theorem Reads.firstItem {items : List Json} (hitems : items ≠ []) {frames : List Frame}
    {next : Expecting} {tokens : List Token}
    (h : Reads (.valueStart (.array [] :: frames)) (itemTokens items ++ tokens) next) :
    Reads (.firstItem frames) (itemTokens items ++ tokens) next := by
  match items with
  | [] => exact absurd rfl hitems
  | [item] => cases item <;> exact h
  | item :: _ :: _ => cases item <;> exact h

/-- The members of an object start where the object may also end. -/
theorem Reads.firstName {members : List (String × Json)} (hmembers : members ≠ [])
    {frames : List Frame} {next : Expecting} {tokens : List Token}
    (h : Reads (.nextName (some []) frames) (memberTokens members ++ tokens) next) :
    Reads (.firstName frames) (memberTokens members ++ tokens) next := by
  match members with
  | [] => exact absurd rfl hmembers
  | [_] => exact h
  | _ :: _ :: _ => exact h

/-! ## Values -/

/-- A complete array or object is lost where there is no room for it. -/
theorem complete_eq {room : Nat} {frames : List Frame} (hroom : room = deepest - frames.length)
    (value : Json) :
    complete value frames = .valueEnd (if room = 0 then .unreadable else value) frames := by
  unfold complete
  by_cases h : frames.length < deepest
  · rw [if_pos h, if_neg (by omega)]
  · rw [if_neg h, if_pos (by omega)]

mutual
/-- The tokens of a value are read as that value. -/
theorem reads_tokens (value : Json) {room : Nat} {frames : List Frame}
    (hroom : room = deepest - frames.length) :
    Reads (.valueStart frames) value.tokens (.valueEnd (value.reread room) frames) := by
  cases value with
  | null => exact .cons rfl (.nil _)
  | bool b => exact .cons rfl (.nil _)
  | whole n => exact .cons rfl (.nil _)
  | real x => exact .cons rfl (.nil _)
  | text s => exact .cons rfl (.nil _)
  | unreadable => exact .cons rfl (.nil _)
  | array items =>
      by_cases hempty : items = []
      · rw [hempty]
        exact .cons rfl (.cons rfl (complete_eq hroom (.array []) ▸ .nil _))
      · have hitems := reads_itemTokens items hempty [] hroom
        rw [List.reverse_nil, List.nil_append, complete_eq hroom] at hitems
        exact .cons rfl (hitems.firstItem hempty)
  | object members =>
      by_cases hempty : members = []
      · rw [hempty]
        exact .cons rfl (.cons rfl (complete_eq hroom (.object []) ▸ .nil _))
      · have hmembers := reads_memberTokens members hempty [] hroom
        rw [List.reverse_nil, List.nil_append, complete_eq hroom] at hmembers
        exact .cons rfl (hmembers.firstName hempty)

/-- The items of an array are read behind those that have been read, which the reader keeps
last one first. -/
theorem reads_itemTokens (items : List Json) (hitems : items ≠ []) {room : Nat}
    {frames : List Frame} (done : List Json) (hroom : room = deepest - frames.length) :
    Reads (.valueStart (.array done :: frames)) (itemTokens items ++ [.closeBracket])
      (complete (.array (done.reverse ++ rereadItems (room - 1) items)) frames) := by
  have hinner : room - 1 = deepest - (Frame.array done :: frames).length := by
    rw [List.length_cons]
    omega
  match items with
  | [] => exact absurd rfl hitems
  | [item] =>
      refine (reads_tokens item hinner).trans (.cons rfl ?_)
      rw [List.reverse_cons]
      exact .nil _
  | item :: next :: items =>
      have hrest := reads_itemTokens (next :: items) (List.cons_ne_nil next items)
        (item.reread (room - 1) :: done) hroom
      rw [List.reverse_cons, List.append_assoc, List.singleton_append] at hrest
      rw [itemTokens, List.append_assoc]
      · exact (reads_tokens item hinner).trans (.cons rfl hrest)
      · exact List.cons_ne_nil next items

/-- The members of an object are read behind those that have been read. -/
theorem reads_memberTokens (members : List (String × Json)) (hmembers : members ≠ [])
    {room : Nat} {frames : List Frame} (done : List (String × Json))
    (hroom : room = deepest - frames.length) :
    Reads (.nextName (some done) frames) (memberTokens members ++ [.closeBrace])
      (complete (.object (done.reverse ++ rereadMembers (room - 1) members)) frames) := by
  have hinner : ∀ name, room - 1 = deepest - (Frame.object (some done) name :: frames).length := by
    intro name
    rw [List.length_cons]
    omega
  match members with
  | [] => exact absurd rfl hmembers
  | [(name, value)] =>
      refine .cons rfl (.cons rfl ((reads_tokens value (hinner (some name))).trans (.cons rfl ?_)))
      simp only [addMember, closeObject, Option.bind_eq_bind, Option.bind_some, Option.pure_def,
        List.reverse_cons]
      exact .nil _
  | (name, value) :: next :: members =>
      have hrest := reads_memberTokens (next :: members) (List.cons_ne_nil next members)
        ((name, value.reread (room - 1)) :: done) hroom
      rw [List.reverse_cons, List.append_assoc, List.singleton_append] at hrest
      rw [memberTokens, List.cons_append, List.cons_append, List.append_assoc]
      · exact .cons rfl (.cons rfl ((reads_tokens value (hinner (some name))).trans
          (.cons rfl hrest)))
      · exact List.cons_ne_nil next members
end

/-- The text of a value is read as what is left of the value. -/
theorem parse?_write (value : Json) : parse? value.write = some (value.reread deepest) := by
  have hreads : Reads (.valueStart []) value.tokens (.valueEnd (value.reread deepest) []) :=
    reads_tokens value rfl
  unfold Reads at hreads
  unfold parse? write
  rw [String.toList_ofList, tokens?_writeChars, Option.bind_eq_bind, Option.bind_some, hreads]
  rfl

/-! ## Lists -/

/-- A list is read back from the list of what is written for it exactly if each of its
entries is. -/
theorem mapM_map_eq_some_iff {Entry Written : Type} (write : Entry → Written)
    (read : Written → Option Entry) (entries : List Entry) :
    (entries.map write).mapM read = some entries ↔
      ∀ entry ∈ entries, read (write entry) = some entry := by
  induction entries with
  | nil => simp
  | cons entry entries ih =>
      rw [List.map_cons, List.mapM_cons, List.forall_mem_cons, ← ih, Option.bind_eq_bind]
      cases hfirst : read (write entry) with
      | none => simp
      | some first =>
          cases hothers : (entries.map write).mapM read with
          | none => simp
          | some others => simp

theorem texts?_map_text (texts : List String) :
    (array (texts.map .text)).texts? = some texts :=
  (mapM_map_eq_some_iff text text? texts).mpr fun _ _ => rfl

end FilterQuery.Json
