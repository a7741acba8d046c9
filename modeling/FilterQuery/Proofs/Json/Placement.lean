import FilterQuery.Json.Reader
import FilterQuery.Proofs.Json.Locality
import FilterQuery.Proofs.Json.RoundTrip
import Mathlib.Data.List.Forall2

/-!
# Values in their places

A text that is read as a value on its own is read inside any arrays and objects.  What is read there
is the value itself but for the arrays and objects in it that are now too far inside others.  So an
object is read member by member, each as if it stood alone.
-/

namespace FilterQuery.Json

open Expecting

/-! ## What is left of a value -/

mutual
/-- What is left of a value in a place with room for so many more levels of arrays and objects. -/
def within (room : Nat) : Json → Json
  | .array items => if room = 0 then .unreadable else .array (itemsWithin (room - 1) items)
  | .object members => if room = 0 then .unreadable else .object (membersWithin (room - 1) members)
  | value => value

def itemsWithin (room : Nat) : List Json → List Json
  | [] => []
  | item :: items => item.within room :: itemsWithin room items

def membersWithin (room : Nat) : List (String × Json) → List (String × Json)
  | [] => []
  | (name, value) :: members => (name, value.within room) :: membersWithin room members
end

theorem itemsWithin_eq_map (room : Nat) (items : List Json) :
    itemsWithin room items = items.map (within room) := by
  induction items with
  | nil => rfl
  | cons item items ih => rw [itemsWithin, ih, List.map_cons]

theorem membersWithin_eq_map (room : Nat) (members : List (String × Json)) :
    membersWithin room members = members.map fun member => (member.1, member.2.within room) := by
  induction members with
  | nil => rfl
  | cons member members ih => rw [membersWithin, ih, List.map_cons]

theorem itemsWithin_reverse (room : Nat) (items : List Json) :
    itemsWithin room items.reverse = (itemsWithin room items).reverse := by
  rw [itemsWithin_eq_map, itemsWithin_eq_map, List.map_reverse]

theorem membersWithin_reverse (room : Nat) (members : List (String × Json)) :
    membersWithin room members.reverse = (membersWithin room members).reverse := by
  rw [membersWithin_eq_map, membersWithin_eq_map, List.map_reverse]

/-! ## Scalars -/

/-- A scalar is neither an array nor an object, so there is room for it everywhere. -/
def Token.IsFlat : Token → Prop
  | .scalar value => ∀ room, value.within room = value
  | _ => True

theorem Numeral.within_value (numeral : Numeral) (room : Nat) :
    numeral.value.within room = numeral.value := by
  unfold Numeral.value
  dsimp only
  repeat' split
  all_goals rfl

theorem isFlat_of_readToken {source other : List Char} {token : Token}
    (read : readToken source = some (token, other)) : token.IsFlat := by
  unfold readToken at read
  split at read
  case h_10 source =>
    obtain ⟨_, -, token_eq⟩ := Option.map_eq_some_iff.mp read
    cases token_eq
    trivial
  case h_11 source =>
    obtain ⟨⟨numeral, _⟩, -, token_eq⟩ := Option.map_eq_some_iff.mp read
    cases token_eq
    exact numeral.within_value
  case h_12 =>
    obtain ⟨⟨numeral, _⟩, -, token_eq⟩ := Option.map_eq_some_iff.mp read
    cases token_eq
    exact numeral.within_value
  all_goals
    cases read
    first | trivial | exact fun _ => rfl

/-- The scalars among the tokens of a text are flat. -/
theorem isFlat_of_tokens?_eq_some {source : List Char} {tokens : List Token}
    (cut : tokens? source = some tokens) : ∀ token ∈ tokens, token.IsFlat := by
  fun_induction tokens? source generalizing tokens with
  | case1 =>
      cases cut
      intro token among
      cases among
  | case2 c source space ih => exact ih cut
  | case3 => cases cut
  | case4 c source plain token behind read shorter ih =>
      obtain ⟨others, others_eq, rfl⟩ := Option.map_eq_some_iff.mp cut
      exact List.forall_mem_cons.mpr ⟨isFlat_of_readToken read, ih others_eq⟩

/-! ## Reading inside other frames -/

/-- An open array or object, with what is left of its parts. -/
def Frame.within (room : Nat) : Frame → Frame
  | .array items => .array (itemsWithin room items)
  | .object members name => .object (members.map (membersWithin room)) name

/-- The room that is left behind so many frames. -/
def roomBehind (count : Nat) : Nat :=
  deepest - count

theorem roomBehind_succ (count : Nat) : roomBehind (count + 1) = roomBehind count - 1 :=
  Nat.sub_succ deepest count

/-- Frames that are opened inside others. -/
def framesInside (outer : List Frame) : List Frame → List Frame
  | [] => outer
  | frame :: frames =>
      frame.within (roomBehind (outer.length + frames.length + 1)) :: framesInside outer frames

@[simp]
theorem length_framesInside (outer frames : List Frame) :
    (framesInside outer frames).length = outer.length + frames.length := by
  induction frames with
  | nil => rfl
  | cons frame frames ih =>
      rw [framesInside, List.length_cons, ih, List.length_cons]
      omega

/-- A state of the reader with its frames inside others. -/
def Expecting.inside (outer : List Frame) : Expecting → Expecting
  | .valueStart frames => .valueStart (framesInside outer frames)
  | .firstItem frames => .firstItem (framesInside outer frames)
  | .firstName frames => .firstName (framesInside outer frames)
  | .nextName members frames =>
      .nextName (members.map (membersWithin (roomBehind (outer.length + frames.length + 1))))
        (framesInside outer frames)
  | .nameEnd members name frames =>
      .nameEnd (members.map (membersWithin (roomBehind (outer.length + frames.length + 1)))) name
        (framesInside outer frames)
  | .valueEnd value frames =>
      .valueEnd (value.within (roomBehind (outer.length + frames.length)))
        (framesInside outer frames)

variable {outer : List Frame}

/-- What is complete is left inside other frames as far as there is room for it. -/
theorem inside_complete {value left : Json} {frames : List Frame}
    (within_eq : value.within (roomBehind (outer.length + frames.length)) =
      if roomBehind (outer.length + frames.length) = 0 then .unreadable else left) :
    (complete value frames).inside outer = complete left (framesInside outer frames) := by
  rw [complete_eq rfl, complete_eq rfl, length_framesInside, Expecting.inside]
  split
  · rename_i full
    rw [if_pos]
    · rfl
    · unfold roomBehind at *
      omega
  · rw [within_eq]
    rfl

theorem inside_complete_array (items : List Json) (frames : List Frame) :
    (complete (.array items) frames).inside outer =
      complete (.array (itemsWithin (roomBehind (outer.length + frames.length + 1)) items))
        (framesInside outer frames) :=
  inside_complete (by rw [within, roomBehind_succ])

theorem inside_closeObject (members : OpenMembers) (frames : List Frame) :
    (complete (closeObject members) frames).inside outer =
      complete (closeObject
          (members.map (membersWithin (roomBehind (outer.length + frames.length + 1)))))
        (framesInside outer frames) := by
  cases members with
  | none => exact inside_complete (by simp [closeObject, within])
  | some members =>
      simp only [closeObject, Option.map_some, ← membersWithin_reverse]
      exact inside_complete (by rw [within, roomBehind_succ])

theorem map_addMember (room : Nat) (members : OpenMembers) (name : Option String) (value : Json) :
    (addMember members name value).map (membersWithin room) =
      addMember (members.map (membersWithin room)) name (value.within room) := by
  cases members <;> cases name <;> rfl

theorem start_inside {frames : List Frame} {token : Token} {next : Expecting}
    (flat : token.IsFlat) (taken : start frames token = some next) :
    start (framesInside outer frames) token = some (next.inside outer) := by
  cases token with
  | scalar value =>
      cases taken
      simp only [start, Expecting.inside, flat _]
  | string s =>
      cases s with
      | none =>
          cases taken
          rfl
      | some s =>
          cases taken
          rfl
  | openBracket =>
      cases taken
      rfl
  | openBrace =>
      cases taken
      rfl
  | _ => cases taken

/-- A step is taken alike inside other frames. -/
theorem step_inside {state next : Expecting} {token : Token} (flat : token.IsFlat)
    (taken : step state token = some next) :
    step (state.inside outer) token = some (next.inside outer) := by
  cases state with
  | valueStart frames => exact start_inside flat taken
  | firstItem frames =>
      have started (taken : start (.array [] :: frames) token = some next) :
          start (framesInside outer (.array [] :: frames)) token = some (next.inside outer) :=
        start_inside flat taken
      cases token with
      | closeBracket =>
          cases taken
          exact congrArg some (inside_complete_array [] frames).symm
      | _ => exact started taken
  | firstName frames =>
      cases token with
      | closeBrace =>
          cases taken
          exact congrArg some (inside_closeObject (some []) frames).symm
      | string name =>
          cases taken
          rfl
      | _ => cases taken
  | nextName members frames =>
      cases token with
      | string name =>
          cases taken
          rfl
      | _ => cases taken
  | nameEnd members name frames =>
      cases token with
      | colon =>
          cases taken
          rfl
      | _ => cases taken
  | valueEnd value frames =>
      rcases frames with _ | ⟨items | ⟨members, name⟩, frames⟩
      case nil => cases token <;> cases taken
      case cons.array =>
        cases token with
        | comma =>
            cases taken
            rfl
        | closeBracket =>
            cases taken
            rw [inside_complete_array, itemsWithin_reverse, itemsWithin]
            rfl
        | _ => cases taken
      case cons.object =>
        cases token with
        | comma =>
            cases taken
            rw [Expecting.inside, map_addMember]
            rfl
        | closeBrace =>
            cases taken
            rw [inside_closeObject, map_addMember]
            rfl
        | _ => cases taken

/-- A text that is read as a value on its own is read inside other frames, as what is left of the
value there. -/
theorem reads_inside {state next : Expecting} {tokens : List Token}
    (flat : ∀ token ∈ tokens, token.IsFlat) (reads : Reads state tokens next) :
    Reads (state.inside outer) tokens (next.inside outer) := by
  induction tokens generalizing state with
  | nil =>
      cases reads
      exact .nil _
  | cons token tokens ih =>
      rcases List.forall_mem_cons.mp flat with ⟨flat, flatOthers⟩
      unfold Reads at reads
      rw [List.foldlM_cons, Option.bind_eq_bind, Option.bind_eq_some_iff] at reads
      obtain ⟨middle, taken, reads⟩ := reads
      exact .cons (step_inside flat taken) (ih flatOthers reads)

/-- The tokens of a text that is read as a value are read as what is left of it in any place. -/
theorem exists_tokens_of_parse? {source : String} {value : Json}
    (read : parse? source = some value) :
    ∃ tokens, tokens? source.toList = some tokens ∧ ∀ frames : List Frame,
      Reads (.valueStart frames) tokens
        (.valueEnd (value.within (roomBehind frames.length)) frames) := by
  simp only [parse?, Option.bind_eq_bind, Option.bind_eq_some_iff] at read
  obtain ⟨tokens, cut, state, reads, ended⟩ := read
  refine ⟨tokens, cut, fun frames => ?_⟩
  obtain rfl : state = .valueEnd value [] := by
    cases state with
    | valueEnd last frames =>
        cases frames with
        | nil =>
            cases ended
            rfl
        | cons => cases ended
    | _ => cases ended
  exact reads_inside (isFlat_of_tokens?_eq_some cut) reads

/-! ## Written members -/

/-- A member of an object as it is written: the text of its name and the text of its value, with the
blanks around them. -/
structure WrittenMember where
  name : String
  value : String
  deriving DecidableEq

namespace WrittenMember

def text (written : WrittenMember) : String :=
  written.name ++ ":" ++ written.value

/-- A written member states a member if its name is the string of the name, and its value is read
as the value. -/
structure States (written : WrittenMember) (member : String × Json) : Prop where
  name : tokens? written.name.toList = some [.string (some member.1)]
  value : parse? written.value = some member.2

end WrittenMember

/-- What is written for a member states it, if its value comes through its text unchanged. -/
theorem WrittenMember.States.of_write (name : String) {value : Json}
    (kept : value.reread deepest = value) :
    (⟨(Json.text name).write, value.write⟩ : WrittenMember).States (name, value) where
  name := by
    rw [write, String.toList_ofList]
    exact tokens?_writeChars (.text name)
  value := by rw [parse?_write, kept]

/-- An object of written members, with a comma between them. -/
def objectText (members : List WrittenMember) : String :=
  "\x7b" ++ ",".intercalate (members.map WrittenMember.text) ++ "\x7d"

/-- A written member is cut and read on its own. -/
theorem WrittenMember.States.exists_tokens {written : WrittenMember} {member : String × Json}
    (states : written.States member) :
    ∃ tokens, (∀ rest, EndsNumeral rest → Cuts (written.text.toList ++ rest)
        (.string (some member.1) :: .colon :: tokens) rest) ∧
      ∀ frames : List Frame, Reads (.valueStart frames) tokens
        (.valueEnd (member.2.within (roomBehind frames.length)) frames) := by
  obtain ⟨tokens, cut, reads⟩ := exists_tokens_of_parse? states.value
  refine ⟨tokens, fun rest ends => ?_, reads⟩
  have name := cuts_of_tokens?_eq_some
    (.cons (c := ':') (by decide) (written.value.toList ++ rest)) states.name
  have value : Cuts (':' :: (written.value.toList ++ rest)) (.colon :: tokens) rest :=
    .mark rfl rfl (cuts_of_tokens?_eq_some ends cut)
  have text_eq : written.text.toList ++ rest =
      written.name.toList ++ ':' :: (written.value.toList ++ rest) := by
    simp [text]
  rw [text_eq]
  exact name.trans value

/-- Written members are cut and read one after another, from where the name of the first may
stand. -/
theorem exists_tokens_of_members {written : List WrittenMember} {members : List (String × Json)}
    (states : List.Forall₂ WrittenMember.States written members) (some : written ≠ []) :
    ∃ tokens, (∀ rest, Cuts ((",".intercalate (written.map WrittenMember.text)).toList ++
        '\x7d' :: rest) (tokens ++ [.closeBrace]) rest) ∧
      ∀ (frames : List Frame) done state,
        (∀ name, step state (.string name) = .some (.nameEnd (.some done) name frames)) →
          Reads state (tokens ++ [.closeBrace]) (complete
            (.object (done.reverse ++ membersWithin (roomBehind (frames.length + 1)) members))
            frames) := by
  induction states with
  | nil => exact absurd rfl some
  | @cons first member others members firstStates othersState ih =>
      obtain ⟨value, firstCuts, firstReads⟩ := firstStates.exists_tokens
      have reads (frames : List Frame) (done : List (String × Json)) (state : Expecting)
          (named : ∀ name, step state (.string name) = .some (.nameEnd (.some done) name frames)) :
          Reads state (.string (.some member.1) :: .colon :: value)
            (.valueEnd (member.2.within (roomBehind (frames.length + 1)))
              (.object (.some done) (.some member.1) :: frames)) :=
        .cons (named _) (.cons rfl (firstReads _))
      cases othersState with
      | nil =>
          refine ⟨.string (.some member.1) :: .colon :: value, fun rest => ?_,
            fun frames done state named => (reads frames done state named).trans (.cons rfl ?_)⟩
          · have mark : Cuts ('\x7d' :: rest) [.closeBrace] rest := .mark rfl rfl (.refl rest)
            rw [List.map_cons, List.map_nil, String.intercalate_singleton]
            exact (firstCuts _ (.cons (by decide) _)).trans mark
          · simp only [addMember, closeObject, Option.bind_eq_bind, Option.bind_some,
              Option.pure_def, List.reverse_cons]
            exact .nil _
      | @cons second _ others _ =>
          obtain ⟨tokens, othersCut, othersRead⟩ := ih (List.cons_ne_nil _ _)
          refine ⟨.string (.some member.1) :: .colon :: (value ++ .comma :: tokens),
            fun rest => ?_, fun frames done state named => ?_⟩
          · have mark := Cuts.mark (c := ',') rfl rfl (othersCut rest)
            have text_eq : (",".intercalate ((first :: second :: others).map
                WrittenMember.text)).toList ++ '\x7d' :: rest =
                  first.text.toList ++ ',' :: ((",".intercalate ((second :: others).map
                    WrittenMember.text)).toList ++ '\x7d' :: rest) := by
              rw [List.map_cons, List.map_cons, String.intercalate_cons_cons]
              simp
            rw [text_eq]
            have cut := (firstCuts _ (.cons (by decide) _)).trans mark
            simpa using cut
          · let read := (member.1, member.2.within (roomBehind (frames.length + 1)))
            have more := othersRead frames (read :: done) (.nextName (.some (read :: done)) frames)
              fun _ => rfl
            have comma : step (.valueEnd read.2 (.object (.some done) (.some member.1) :: frames))
                .comma = .some (.nextName (.some (read :: done)) frames) := rfl
            rw [List.reverse_cons, List.append_assoc, List.singleton_append] at more
            have run := (reads frames done state named).trans (.cons comma more)
            simpa [membersWithin] using run

/-- The text of an object is cut and read anywhere as the object of its members, as what is left of
them there. -/
theorem exists_tokens_of_objectText {written : List WrittenMember}
    {members : List (String × Json)}
    (states : List.Forall₂ WrittenMember.States written members) :
    ∃ tokens, (∀ rest, Cuts ((objectText written).toList ++ rest) (.openBrace :: tokens) rest) ∧
      ∀ frames : List Frame, Reads (.firstName frames) tokens
        (complete (.object (membersWithin (roomBehind (frames.length + 1)) members)) frames) := by
  have text_eq (rest : List Char) : (objectText written).toList ++ rest =
      '\x7b' :: ((",".intercalate (written.map WrittenMember.text)).toList ++ '\x7d' :: rest) := by
    simp [objectText]
  by_cases some : written = []
  · subst some
    cases states
    exact ⟨[.closeBrace], fun rest => .mark rfl rfl (.mark rfl rfl (.refl rest)),
      fun frames => .cons rfl (.nil _)⟩
  · obtain ⟨tokens, cuts, reads⟩ := exists_tokens_of_members states some
    refine ⟨tokens ++ [.closeBrace], fun rest => ?_,
      fun frames => reads frames [] (.firstName frames) fun _ => rfl⟩
    rw [text_eq]
    exact .mark rfl rfl (cuts rest)

end FilterQuery.Json
