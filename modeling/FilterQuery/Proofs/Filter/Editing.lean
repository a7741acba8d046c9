import FilterQuery.Proofs.Filter.Alike
import FilterQuery.Proofs.Filter.RoundTrip
import FilterQuery.Proofs.Json.Placement
import Mathlib.Data.List.Perm.Basic

/-!
# Editing the JSON text of a filter

A node is found by the names of its parts, so their order does not matter, and neither do members
that nodes of its kind do not have.  An object that is edited in this way anywhere in a text says
the same as before, and so does the text.
-/

namespace FilterQuery

namespace Json

variable {members others : List (String × Json)} {name : String}

/-! ## Members that occur once -/

/-- Names are looked for alike before and after the values are exchanged. -/
theorem filter_name_map {α β : Type} (f : α → β) (entries : List (String × α)) (name : String) :
    (entries.map fun entry => (entry.1, f entry.2)).filter (·.1 = name) =
      (entries.filter (·.1 = name)).map fun entry => (entry.1, f entry.2) :=
  List.filter_map

theorem unique?_perm (perm : members.Perm others) (name : String) :
    unique? members name = unique? others name := by
  have named := perm.filter (·.1 = name)
  unfold unique?
  generalize members.filter _ = found at named ⊢
  generalize others.filter _ = otherFound at named ⊢
  match found, otherFound, named.length_eq with
  | [], [], _ => rfl
  | [member], [other], _ => rw [List.singleton_perm_singleton.mp named]
  | _ :: _ :: _, _ :: _ :: _, _ => rfl

theorem unique?_append (absent : ∀ member ∈ others, member.1 ≠ name) :
    unique? (members ++ others) name = unique? members name := by
  have none : others.filter (·.1 = name) = [] := by simpa using absent
  rw [unique?, unique?, List.filter_append, none, List.append_nil]

theorem unique?_membersWithin (room : Nat) (members : List (String × Json)) (name : String) :
    unique? (membersWithin room members) name = (unique? members name).map (within room) := by
  rw [unique?, unique?, membersWithin_eq_map, filter_name_map]
  generalize members.filter _ = found
  rcases found with _ | ⟨first, _ | _⟩ <;> rfl

theorem membersReadable_eq_all (members : List (String × Json)) :
    membersReadable members = members.all (·.2.isReadable) := by
  induction members with
  | nil => rfl
  | cons member members ih => rw [membersReadable, ih, List.all_cons]

end Json

namespace Filter

open Json (Expecting Token WrittenMember objectText within membersWithin roomBehind unique?)

variable {members edited added : List (String × Json)} {kind : NodeKind}

/-! ## Edited objects -/

theorem membersOfJson_eq_map (members : List (String × Json)) :
    membersOfJson members =
      members.map fun member => (member.1, ⟨member.2, childrenOfJson? member.2⟩) := by
  induction members with
  | nil => rfl
  | cons member members ih => rw [membersOfJson, ih, List.map_cons]

theorem uniquePart?_membersOfJson (members : List (String × Json)) (name : String) :
    uniquePart? (membersOfJson members) name =
      (unique? members name).map fun value => ⟨value, childrenOfJson? value⟩ := by
  rw [uniquePart?, unique?, membersOfJson_eq_map,
    Json.filter_name_map fun value => (⟨value, childrenOfJson? value⟩ : Part)]
  generalize members.filter _ = found
  rcases found with _ | ⟨first, _ | _⟩ <;> rfl

theorem kindOfJson?_within (numbered : Bool) (room : Nat) (value : Json) :
    kindOfJson? numbered (value.within room) = kindOfJson? numbered value := by
  cases value with
  | array items => rw [within]; split <;> rfl
  | object members => rw [within]; split <;> rfl
  | _ => rfl

/-- Where numbers are not allowed there are no other kinds. -/
theorem kindOfJson?_numbered {numbered : Bool} {value : Json} {kind : NodeKind}
    (kind_eq : kindOfJson? numbered value = some kind) : kindOfJson? true value = some kind := by
  cases numbered with
  | true => exact kind_eq
  | false =>
      unfold kindOfJson? at kind_eq
      split at kind_eq <;> first | exact kind_eq | cases kind_eq

/-- A node says the same when its members are put into another order, and when readable members are
added that nodes of its kind do not have. -/
theorem alike_edited (node : (unique? members "type").bind (kindOfJson? true) = some kind)
    (perm : edited.Perm (members ++ added))
    (unknown : ∀ member ∈ added, member.1 ≠ "type" ∧ member.1 ∉ partNames kind)
    (readable : ∀ member ∈ added, member.2.isReadable = true) :
    Alike (.object edited) (.object members) := by
  have kept (name : String) (known : name = "type" ∨ name ∈ partNames kind) :
      uniquePart? (membersOfJson edited) name = uniquePart? (membersOfJson members) name := by
    rw [uniquePart?_membersOfJson, uniquePart?_membersOfJson, Json.unique?_perm perm,
      Json.unique?_append]
    rintro member among rfl
    rcases known with type | part
    · exact (unknown member among).1 type
    · exact (unknown member among).2 part
  constructor
  case isReadable =>
    show Json.membersReadable edited = Json.membersReadable members
    rw [Json.membersReadable_eq_all, Json.membersReadable_eq_all, perm.all_eq, List.all_append,
      List.all_eq_true.mpr readable, Bool.and_true]
  case node =>
    intro numbered
    have type_eq := kept "type" (.inl rfl)
    apply nodeOfJson?_object_congr
    · rw [type_eq]
      exact .refl _
    · intro part other part_eq kind_eq name known
      rw [type_eq, uniquePart?_membersOfJson] at part_eq
      obtain ⟨value, value_eq, rfl⟩ := Option.map_eq_some_iff.mp part_eq
      rw [value_eq, Option.bind_some, kindOfJson?_numbered kind_eq] at node
      cases node
      rw [kept name (.inr known)]
      exact .refl _
  all_goals intros; rfl

/-! ## Edited texts -/

theorem exists_frames_of_openBrace {state next : Expecting}
    (taken : state.step .openBrace = some next) : ∃ frames, next = .firstName frames := by
  cases state with
  | valueStart frames =>
      cases taken
      exact ⟨_, rfl⟩
  | firstItem frames =>
      cases taken
      exact ⟨_, rfl⟩
  | valueEnd value frames => rcases frames with _ | ⟨_ | _, _⟩ <;> cases taken
  | _ => cases taken

/-- A brace opens an object in any state where one may stand. -/
theorem exists_frames_of_opened {before : List Token} {state next : Expecting}
    (read : (before ++ [Token.openBrace]).foldlM Expecting.step state = some next) :
    ∃ frames, next = .firstName frames := by
  rw [List.foldlM_append, Option.bind_eq_bind, Option.bind_eq_some_iff] at read
  obtain ⟨waiting, -, taken⟩ := read
  rw [List.foldlM_cons, Option.bind_eq_bind, Option.bind_eq_some_iff] at taken
  obtain ⟨last, taken, ended⟩ := taken
  cases ended
  exact exists_frames_of_openBrace taken

/-- What is read of a text with an object in it depends on the members of the object alone.  The
text in front is cut into tokens by itself, so the object does not begin inside a string. -/
theorem ofJsonText?_objectText {front : String} {before : List Token}
    (cut : Json.tokens? front.toList = some before) {written : List WrittenMember}
    (states : List.Forall₂ WrittenMember.States written members) (back : String) :
    ofJsonText? (front ++ objectText written ++ back) =
      (Json.tokens? back.toList).bind fun behind =>
        ((before ++ [Token.openBrace]).foldlM Expecting.step (.valueStart [])).bind fun
          | .firstName frames =>
              ((behind.foldlM Expecting.step (Expecting.complete
                (.object (membersWithin (roomBehind (frames.length + 1)) members)) frames)).bind
                  Expecting.value?).bind ofJson?
          | _ => none := by
  obtain ⟨tokens, cuts, reads⟩ := Json.exists_tokens_of_objectText states
  have text_eq : (front ++ objectText written ++ back).toList =
      front.toList ++ ((objectText written).toList ++ back.toList) := by
    simp
  have ends : Json.EndsNumeral ((objectText written).toList ++ back.toList) := by
    simpa [objectText] using .cons (c := '\x7b') (by decide) _
  have whole := (Json.cuts_of_tokens?_eq_some ends cut).trans (cuts back.toList)
  unfold Json.Cuts at whole
  rw [ofJsonText?, Json.parse?, text_eq, whole]
  cases Json.tokens? back.toList with
  | none => rfl
  | some behind =>
      have split_eq : before ++ .openBrace :: tokens ++ behind =
          before ++ [.openBrace] ++ (tokens ++ behind) := by simp
      simp only [Option.map_some, Option.bind_eq_bind, Option.bind_some, split_eq]
      have opened (next : Expecting)
          (read : (before ++ [Token.openBrace]).foldlM Expecting.step (.valueStart []) =
            some next) : ∃ frames, next = .firstName frames := exists_frames_of_opened read
      generalize before ++ [Token.openBrace] = front at opened ⊢
      rw [List.foldlM_append, Option.bind_eq_bind]
      cases read : front.foldlM Expecting.step (.valueStart []) with
      | none => rfl
      | some state =>
          obtain ⟨frames, rfl⟩ := opened state read
          have object := reads frames
          unfold Json.Reads at object
          rw [Option.bind_some, List.foldlM_append, object]
          rfl

/-- Members that state texts, under names with some property, are members of an object that do. -/
theorem exists_texts_of_states {more : List WrittenMember} {P : String → Prop}
    (unknown : ∀ member ∈ more, ∃ name s, member.States (name, .text s) ∧ P name) :
    ∃ added : List (String × Json), List.Forall₂ WrittenMember.States more added ∧
      ∀ member ∈ added, (∃ s, member.2 = .text s) ∧ P member.1 := by
  induction more with
  | nil => exact ⟨[], .nil, List.forall_mem_nil _⟩
  | cons first more ih =>
      obtain ⟨⟨name, s, firstStates, apart⟩, unknown⟩ := List.forall_mem_cons.mp unknown
      obtain ⟨added, addedStates, unknown⟩ := ih unknown
      exact ⟨(name, .text s) :: added, .cons firstStates addedStates,
        List.forall_mem_cons.mpr ⟨⟨⟨s, rfl⟩, apart⟩, unknown⟩⟩

/-- What is left of texts in any place are the texts. -/
theorem membersWithin_texts (texts : ∀ member ∈ added, ∃ s, member.2 = Json.text s) (room : Nat) :
    membersWithin room added = added := by
  rw [Json.membersWithin_eq_map]
  refine (List.map_congr_left fun member among => ?_).trans (List.map_id added)
  obtain ⟨s, value_eq⟩ := texts member among
  rw [value_eq]
  exact Prod.ext rfl value_eq.symm

/-- In its place an object has what is left of its members, which are edited alike. -/
theorem alike_within (node : (unique? members "type").bind (kindOfJson? true) = some kind)
    (perm : edited.Perm (members ++ added))
    (unknown : ∀ member ∈ added, member.1 ≠ "type" ∧ member.1 ∉ partNames kind)
    (texts : ∀ member ∈ added, ∃ s, member.2 = Json.text s) (room : Nat) :
    Alike (.object (membersWithin room edited)) (.object (membersWithin room members)) := by
  have kindWithin : (unique? (membersWithin room members) "type").bind (kindOfJson? true) =
      some kind := by
    rw [Json.unique?_membersWithin, Option.bind_map]
    simpa only [Function.comp_def, kindOfJson?_within] using node
  have permWithin : (membersWithin room edited).Perm
      (membersWithin room members ++ membersWithin room added) := by
    simpa only [Json.membersWithin_eq_map, List.map_append] using perm.map _
  rw [membersWithin_texts texts] at permWithin
  refine alike_edited kindWithin permWithin unknown fun member among => ?_
  obtain ⟨s, value_eq⟩ := texts member among
  rw [value_eq]
  rfl

/-- An object in a text that says a node is read alike after its members have been put into another
order, and members with texts have been added that nodes of its kind do not have. -/
theorem ofJsonText?_edited {front back : String} {written edited more : List WrittenMember}
    (cut : (Json.tokens? front.toList).isSome = true)
    (states : List.Forall₂ WrittenMember.States written members)
    (node : (unique? members "type").bind (kindOfJson? true) = some kind)
    (unknown : ∀ member ∈ more, ∃ name s, member.States (name, .text s) ∧ name ≠ "type" ∧
      name ∉ partNames kind)
    (perm : edited.Perm (written ++ more)) :
    ofJsonText? (front ++ objectText edited ++ back) =
      ofJsonText? (front ++ objectText written ++ back) := by
  obtain ⟨before, cut⟩ := Option.isSome_iff_exists.mp cut
  obtain ⟨added, addedStates, addedTexts⟩ :=
    exists_texts_of_states (P := fun name => name ≠ "type" ∧ name ∉ partNames kind) unknown
  obtain ⟨editedMembers, editedStates, editedPerm⟩ :=
    List.perm_comp_forall₂ perm (List.rel_append states addedStates)
  have alike := alike_within node editedPerm (fun member among => (addedTexts member among).2)
    fun member among => (addedTexts member among).1
  rw [ofJsonText?_objectText cut editedStates, ofJsonText?_objectText cut states]
  refine Option.bind_congr fun behind _ => Option.bind_congr fun state _ => ?_
  cases state with
  | firstName frames => exact run_alike (complete_alike (framesAlike_refl frames) (alike _)) behind
  | _ => rfl

/-- Filters survive their JSON text.  Whatever texts are in a filter, its JSON text is read back as
the filter unless its levels are deeper than the reader goes.  In any JSON text an object that says
a node may have its members in any order, and more members with texts under names that nodes of its
kind do not know, and the text is read as the same filter. -/
theorem jsonText_survives :
    (∀ filter : Filter, filter.levels ≤ Json.deepest →
      ofJsonText? filter.toJsonText = some filter) ∧
    ∀ (front back : String) (written edited more : List WrittenMember)
      (members : List (String × Json)) (kind : NodeKind),
      (Json.tokens? front.toList).isSome = true →
      List.Forall₂ WrittenMember.States written members →
      (unique? members "type").bind (kindOfJson? true) = some kind →
      (∀ member ∈ more, ∃ name s, member.States (name, .text s) ∧ name ≠ "type" ∧
        name ∉ partNames kind) →
      edited.Perm (written ++ more) →
        ofJsonText? (front ++ objectText edited ++ back) =
          ofJsonText? (front ++ objectText written ++ back) := by
  constructor
  · intro filter fits
    rw [ofJsonText?_toJsonText, if_pos fits]
  · intro front back written edited more members kind
    exact ofJsonText?_edited

/-- A quote, a backslash, a control character and a letter with an accent come through, and so does
a group without children.  The comparison inside a group has its kind last, and then first, with
one more member. -/
theorem jsonText_survives_comparison :
    let filter : Filter :=
      .logical "^" [.comparison ⟨"name", "==", ["\"\\\x01é", ""]⟩, .logical "" []]
    let front := "\x7b \"children\" : ["
    let back := " ], \"operator\": \";\", \"type\": \"logical\" \x7d"
    let member (name : String) (value : Json) : WrittenMember :=
      ⟨(Json.text name).write, value.write⟩
    let selector := member "selector" (.text "id")
    let operator := member "operator" (.text "==")
    let arguments := member "arguments" (.array [.text "1", .text "2"])
    let kind := member "type" (.text "comparison")
    let note := member "kind" (.text "\n")
    filter.levels ≤ Json.deepest ∧ ofJsonText? filter.toJsonText = some filter ∧
    (ofJsonText? (front ++ objectText [selector, operator, arguments, kind] ++ back)).isSome =
      true ∧
    ofJsonText? (front ++ objectText [kind, arguments, note, selector, operator] ++ back) =
      ofJsonText? (front ++ objectText [selector, operator, arguments, kind] ++ back) := by
  intro filter front back member selector operator arguments kind note
  have fits : filter.levels ≤ Json.deepest := by decide +kernel
  refine ⟨fits, jsonText_survives.1 filter fits, by decide +kernel, ?_⟩
  refine jsonText_survives.2 front back _ _ [note] [("selector", .text "id"),
    ("operator", .text "=="), ("arguments", .array [.text "1", .text "2"]),
    ("type", .text "comparison")] .comparison (by decide +kernel) ?_ rfl ?_ (by decide +kernel)
  · exact .cons (.of_write _ rfl) (.cons (.of_write _ rfl) (.cons (.of_write _ rfl)
      (.cons (.of_write _ rfl) .nil)))
  · intro written among
    obtain rfl := List.mem_singleton.mp among
    exact ⟨"kind", "\n", .of_write _ rfl, by decide, by decide⟩

end Filter

end FilterQuery
