import FilterQuery.Filter.Json
import Mathlib.Data.List.Forall2
import Mathlib.Data.Option.Basic
import Mathlib.Data.Option.Defs

/-!
# JSON values that say the same to a reader of filters

Two JSON values are alike if no reading of nodes and their parts tells them apart.  Arrays of alike
items are alike, and so are objects with alike members under the same names.  Therefore the reader,
which puts values together without looking into them, stays in states that are alike.
-/

namespace FilterQuery.Filter

open Json (Frame Expecting)

/-! ## Values -/

/-- Values that are readable alike, and of which each kind of part gives the same. -/
structure Alike (first second : Json) : Prop where
  isReadable : first.isReadable = second.isReadable
  text : first.text? = second.text?
  texts : first.texts? = second.texts?
  kind : ∀ numbered, kindOfJson? numbered first = kindOfJson? numbered second
  node : ∀ numbered, nodeOfJson? numbered first = nodeOfJson? numbered second
  children : childrenOfJson? first = childrenOfJson? second

theorem Alike.refl (value : Json) : Alike value value :=
  ⟨rfl, rfl, rfl, fun _ => rfl, fun _ => rfl, rfl⟩

/-- Members with the same name and alike values. -/
def MembersAlike (first second : String × Json) : Prop :=
  first.1 = second.1 ∧ Alike first.2 second.2

/-- Parts of which the same is read. -/
structure Part.Alike (first second : Part) : Prop where
  json : Filter.Alike first.json second.json
  children : first.children = second.children

variable {items others : List Json}

theorem areReadable_alike (alike : List.Forall₂ Alike items others) :
    Json.areReadable items = Json.areReadable others := by
  induction alike with
  | nil => rfl
  | cons first _ ih => rw [Json.areReadable, Json.areReadable, first.isReadable, ih]

theorem texts_alike (alike : List.Forall₂ Alike items others) :
    items.mapM Json.text? = others.mapM Json.text? := by
  induction alike with
  | nil => rfl
  | cons first _ ih => rw [List.mapM_cons, List.mapM_cons, first.text, ih]

theorem nodesOfJson?_alike (alike : List.Forall₂ Alike items others) :
    nodesOfJson? items = nodesOfJson? others := by
  induction alike with
  | nil => rfl
  | cons first _ ih => rw [nodesOfJson?, nodesOfJson?, first.node, ih]

theorem itemsOfJson_alike (alike : List.Forall₂ Alike items others) :
    List.Forall₂ Part.Alike (itemsOfJson items) (itemsOfJson others) := by
  induction alike with
  | nil => exact .nil
  | cons first _ ih =>
      rw [itemsOfJson, itemsOfJson]
      exact .cons ⟨first, first.children⟩ ih

/-- A node is made of what its parts say. -/
theorem ofParts?_alike {parts otherParts : List Part}
    (alike : List.Forall₂ Part.Alike parts otherParts) (kind : NodeKind) :
    ofParts? kind parts = ofParts? kind otherParts := by
  cases kind with
  | comparison =>
      rcases alike with _ | ⟨selector, _ | ⟨operator, _ | ⟨arguments, _ | _⟩⟩⟩
      case cons.cons.cons.nil =>
        simp only [ofParts?, selector.json.text, operator.json.text, arguments.json.texts]
      all_goals rfl
  | logical =>
      rcases alike with _ | ⟨operator, _ | ⟨children, _ | _⟩⟩
      case cons.cons.nil => simp only [ofParts?, operator.json.text, children.children]
      all_goals rfl
  | extension =>
      rcases alike with _ | ⟨kind, _ | _⟩
      case cons.nil => simp only [ofParts?, kind.json.text]
      all_goals rfl

theorem alike_array (alike : List.Forall₂ Alike items others) :
    Alike (.array items) (.array others) where
  isReadable := areReadable_alike alike
  text := rfl
  texts := texts_alike alike
  kind _ := rfl
  node numbered := by
    cases alike with
    | nil => rfl
    | cons kind others =>
        rw [nodeOfJson?, nodeOfJson?, kind.kind]
        cases kindOfJson? numbered _ with
        | none => rfl
        | some kind => exact ofParts?_alike (itemsOfJson_alike others) kind
  children := by
    rw [childrenOfJson?, childrenOfJson?]
    exact nodesOfJson?_alike alike

/-! ## Objects -/

/-- The same parts, or none. -/
abbrev PartAlike : Option Part → Option Part → Prop :=
  Option.Rel Part.Alike

theorem PartAlike.refl : (part : Option Part) → PartAlike part part
  | none => .none
  | some part => .some ⟨.refl part.json, rfl⟩

theorem mapM_alike {parts otherParts : String → Option Part} {names : List String}
    (alike : ∀ name ∈ names, PartAlike (parts name) (otherParts name)) :
    Option.Rel (List.Forall₂ Part.Alike) (names.mapM parts) (names.mapM otherParts) := by
  induction names with
  | nil => exact .some .nil
  | cons name names ih =>
      rcases List.forall_mem_cons.mp alike with ⟨first, alike⟩
      rw [List.mapM_cons, List.mapM_cons]
      generalize parts name = part at first ⊢
      generalize otherParts name = other at first ⊢
      cases first with
      | none => exact .none
      | some first =>
          have others := ih alike
          generalize names.mapM parts = read at others ⊢
          generalize names.mapM otherParts = otherRead at others ⊢
          cases others with
          | none => exact .none
          | some others => exact .some (.cons first others)

variable {members otherMembers : List (String × Json)}

/-- Of an object only the kind is read and the parts that a node of this kind has. -/
theorem nodeOfJson?_object_congr {numbered : Bool}
    (type : PartAlike (uniquePart? (membersOfJson members) "type")
      (uniquePart? (membersOfJson otherMembers) "type"))
    (parts : ∀ part kind, uniquePart? (membersOfJson members) "type" = some part →
      kindOfJson? numbered part.json = some kind → ∀ name ∈ partNames kind,
        PartAlike (uniquePart? (membersOfJson members) name)
          (uniquePart? (membersOfJson otherMembers) name)) :
    nodeOfJson? numbered (.object members) = nodeOfJson? numbered (.object otherMembers) := by
  rw [nodeOfJson?, nodeOfJson?]
  generalize uniquePart? (membersOfJson members) "type" = kindPart at type parts ⊢
  generalize uniquePart? (membersOfJson otherMembers) "type" = otherKindPart at type ⊢
  cases type with
  | none => rfl
  | @some part other alike =>
      simp only [Option.bind_eq_bind, Option.bind_some, ← alike.json.kind]
      cases kind_eq : kindOfJson? numbered part.json with
      | none => rfl
      | some kind =>
          have read := mapM_alike (parts part kind rfl kind_eq)
          simp only [Option.bind_some]
          generalize (partNames kind).mapM (uniquePart? (membersOfJson members)) = found at read ⊢
          generalize (partNames kind).mapM (uniquePart? (membersOfJson otherMembers)) = otherFound
            at read ⊢
          cases read with
          | none => rfl
          | some alike => exact ofParts?_alike alike kind

theorem membersReadable_alike (alike : List.Forall₂ MembersAlike members otherMembers) :
    Json.membersReadable members = Json.membersReadable otherMembers := by
  induction alike with
  | nil => rfl
  | cons first _ ih => rw [Json.membersReadable, Json.membersReadable, first.2.isReadable, ih]

theorem uniquePart?_alike (alike : List.Forall₂ MembersAlike members otherMembers)
    (name : String) :
    PartAlike (uniquePart? (membersOfJson members) name)
      (uniquePart? (membersOfJson otherMembers) name) := by
  have parts : List.Forall₂ (fun first second : String × Part =>
      first.1 = second.1 ∧ first.2.Alike second.2)
      (membersOfJson members) (membersOfJson otherMembers) := by
    induction alike with
    | nil => exact .nil
    | cons first _ ih =>
        rw [membersOfJson, membersOfJson]
        exact .cons ⟨first.1, first.2, first.2.children⟩ ih
  have named := List.rel_filter (p := fun part => decide (part.1 = name))
    (q := fun part => decide (part.1 = name)) (fun _ _ alike => by simp [alike.1]) parts
  unfold uniquePart?
  generalize (membersOfJson members).filter _ = found at named ⊢
  generalize (membersOfJson otherMembers).filter _ = otherFound at named ⊢
  cases named with
  | nil => exact .none
  | cons part others =>
      cases others with
      | nil => exact .some part.2
      | cons => exact .none

theorem alike_object (alike : List.Forall₂ MembersAlike members otherMembers) :
    Alike (.object members) (.object otherMembers) where
  isReadable := membersReadable_alike alike
  text := rfl
  texts := rfl
  kind _ := rfl
  node _ := nodeOfJson?_object_congr (uniquePart?_alike alike "type")
    fun _ _ _ _ name _ => uniquePart?_alike alike name
  children := rfl

/-- Alike values are read as the same filter, or not at all. -/
theorem ofJson?_alike {first second : Json} (alike : Alike first second) :
    ofJson? first = ofJson? second := by
  rw [ofJson?, ofJson?, alike.isReadable, alike.node]

/-! ## The reader -/

/-- Open objects with alike members. -/
abbrev OpenAlike : Json.OpenMembers → Json.OpenMembers → Prop :=
  Option.Rel (List.Forall₂ MembersAlike)

/-- Open arrays and objects with alike parts. -/
inductive FrameAlike : Frame → Frame → Prop
  | array {items others : List Json} (alike : List.Forall₂ Alike items others) :
      FrameAlike (.array items) (.array others)
  | object {members others : Json.OpenMembers} (alike : OpenAlike members others)
      (name : Option String) : FrameAlike (.object members name) (.object others name)

theorem framesAlike_refl (frames : List Frame) : List.Forall₂ FrameAlike frames frames := by
  rw [List.forall₂_same]
  intro frame _
  cases frame with
  | array items => exact .array (List.forall₂_same.mpr fun item _ => .refl item)
  | object members name =>
      cases members with
      | none => exact .object .none name
      | some members =>
          exact .object (.some (List.forall₂_same.mpr fun member _ => ⟨rfl, .refl member.2⟩)) name

/-- States of the reader that expect the same, with alike values. -/
inductive StateAlike : Expecting → Expecting → Prop
  | valueStart {frames others : List Frame} (alike : List.Forall₂ FrameAlike frames others) :
      StateAlike (.valueStart frames) (.valueStart others)
  | firstItem {frames others : List Frame} (alike : List.Forall₂ FrameAlike frames others) :
      StateAlike (.firstItem frames) (.firstItem others)
  | firstName {frames others : List Frame} (alike : List.Forall₂ FrameAlike frames others) :
      StateAlike (.firstName frames) (.firstName others)
  | nextName {members otherMembers : Json.OpenMembers} {frames others : List Frame}
      (added : OpenAlike members otherMembers) (alike : List.Forall₂ FrameAlike frames others) :
      StateAlike (.nextName members frames) (.nextName otherMembers others)
  | nameEnd {members otherMembers : Json.OpenMembers} {frames others : List Frame}
      (added : OpenAlike members otherMembers) (name : Option String)
      (alike : List.Forall₂ FrameAlike frames others) :
      StateAlike (.nameEnd members name frames) (.nameEnd otherMembers name others)
  | valueEnd {value otherValue : Json} {frames others : List Frame}
      (read : Alike value otherValue) (alike : List.Forall₂ FrameAlike frames others) :
      StateAlike (.valueEnd value frames) (.valueEnd otherValue others)

/-- Alike states, or none. -/
abbrev TakenAlike : Option Expecting → Option Expecting → Prop :=
  Option.Rel StateAlike

section

variable {frames others : List Frame} (alike : List.Forall₂ FrameAlike frames others)

include alike

theorem complete_alike {value other : Json} (valueAlike : Alike value other) :
    StateAlike (Expecting.complete value frames) (Expecting.complete other others) := by
  unfold Expecting.complete
  rw [alike.length_eq]
  split
  · exact .valueEnd valueAlike alike
  · exact .valueEnd (.refl _) alike

theorem start_alike (token : Json.Token) :
    TakenAlike (Expecting.start frames token) (Expecting.start others token) := by
  cases token with
  | scalar value => exact .some (.valueEnd (.refl value) alike)
  | string s =>
      cases s with
      | none => exact .some (.valueEnd (.refl _) alike)
      | some s => exact .some (.valueEnd (.refl _) alike)
  | openBracket => exact .some (.firstItem alike)
  | openBrace => exact .some (.firstName alike)
  | _ => exact .none

end

theorem addMember_alike {open_ other : Json.OpenMembers} {value otherValue : Json}
    (alike : OpenAlike open_ other) (name : Option String) (valueAlike : Alike value otherValue) :
    OpenAlike (Expecting.addMember open_ name value)
      (Expecting.addMember other name otherValue) := by
  cases alike with
  | none => exact .none
  | some alike =>
      cases name with
      | none => exact .none
      | some name => exact .some (.cons ⟨rfl, valueAlike⟩ alike)

theorem closeObject_alike {open_ other : Json.OpenMembers} (alike : OpenAlike open_ other) :
    Alike (Expecting.closeObject open_) (Expecting.closeObject other) := by
  cases alike with
  | none => exact .refl _
  | some alike => exact alike_object (List.forall₂_reverse_iff.mpr alike)

/-- Alike states take a token alike. -/
theorem step_alike {state other : Expecting} (alike : StateAlike state other)
    (token : Json.Token) : TakenAlike (state.step token) (other.step token) := by
  cases alike with
  | valueStart alike => exact start_alike alike token
  | firstItem alike =>
      have started := start_alike (.cons (.array .nil) alike) token
      cases token with
      | closeBracket => exact .some (complete_alike alike (.refl _))
      | _ => exact started
  | firstName alike =>
      cases token with
      | closeBrace => exact .some (complete_alike alike (.refl _))
      | string name => exact .some (.nameEnd (.some .nil) name alike)
      | _ => exact .none
  | nextName members alike =>
      cases token with
      | string name => exact .some (.nameEnd members name alike)
      | _ => exact .none
  | nameEnd members name alike =>
      cases token with
      | colon => exact .some (.valueStart (.cons (.object members name) alike))
      | _ => exact .none
  | valueEnd value alike =>
      cases alike with
      | nil => cases token <;> exact .none
      | cons frame alike =>
          cases frame with
          | array items =>
              cases token with
              | comma => exact .some (.valueStart (.cons (.array (.cons value items)) alike))
              | closeBracket =>
                  exact .some (complete_alike alike
                    (alike_array (List.forall₂_reverse_iff.mpr (.cons value items))))
              | _ => exact .none
          | object members name =>
              have added := addMember_alike members name value
              cases token with
              | comma => exact .some (.nextName added alike)
              | closeBrace => exact .some (complete_alike alike (closeObject_alike added))
              | _ => exact .none

theorem value?_alike {state other : Expecting} (alike : StateAlike state other) :
    state.value?.bind ofJson? = other.value?.bind ofJson? := by
  cases alike with
  | valueEnd read alike =>
      cases alike with
      | nil => exact ofJson?_alike read
      | cons => rfl
  | _ => rfl

/-- Alike states come to the same filter over the same tokens. -/
theorem run_alike {state other : Expecting} (alike : StateAlike state other)
    (tokens : List Json.Token) :
    ((tokens.foldlM Expecting.step state).bind Expecting.value?).bind ofJson? =
      ((tokens.foldlM Expecting.step other).bind Expecting.value?).bind ofJson? := by
  induction tokens generalizing state other with
  | nil => exact value?_alike alike
  | cons token tokens ih =>
      have taken := step_alike alike token
      rw [List.foldlM_cons, List.foldlM_cons]
      generalize state.step token = next at taken ⊢
      generalize other.step token = otherNext at taken ⊢
      cases taken with
      | none => rfl
      | some alike => exact ih alike

end FilterQuery.Filter
