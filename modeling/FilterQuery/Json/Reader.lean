import FilterQuery.Json.Token

/-!
# Reading JSON text

A value is read by a machine that takes one token at a time.  Its state is what
may come next together with the arrays and objects that are still open, the
innermost first.  Reading a text is running the machine over its tokens, so a
text that starts with the tokens of one value brings the machine to the state
behind that value whatever follows.
-/

namespace FilterQuery.Json

/-- The members of an object so far, the last one first; `none` if one of their
names is unreadable. -/
abbrev OpenMembers := Option (List (String × Json))

/-- An array or object that is still open and waits for a value. -/
inductive Frame
  /-- An array with its items so far, the last one first. -/
  | array (items : List Json)
  /-- An object and the name of the member whose value is read. -/
  | object (members : OpenMembers) (name : Option String)

/-- What the machine expects. -/
inductive Expecting
  /-- A value. -/
  | valueStart (frames : List Frame)
  /-- A value or the end of an empty array. -/
  | firstItem (frames : List Frame)
  /-- A name or the end of an empty object. -/
  | firstName (frames : List Frame)
  /-- The name of another member. -/
  | nextName (members : OpenMembers) (frames : List Frame)
  /-- The colon behind a name. -/
  | nameEnd (members : OpenMembers) (name : Option String) (frames : List Frame)
  /-- What may follow a complete value. -/
  | valueEnd (value : Json) (frames : List Frame)

/-- How many arrays and objects can be open at once and still be read. -/
def deepest : Nat :=
  127

namespace Expecting

/-- The state behind an array or object, which is unreadable if it is too far inside
others. -/
def complete (value : Json) (frames : List Frame) : Expecting :=
  .valueEnd (if frames.length < deepest then value else .unreadable) frames

/-- The object with the given members. -/
def closeObject (members : OpenMembers) : Json :=
  match members with
  | some members => .object members.reverse
  | none => .unreadable

/-- Adds a member to an open object. -/
def addMember (members : OpenMembers) (name : Option String) (value : Json) : OpenMembers := do
  let members ← members
  let name ← name
  pure ((name, value) :: members)

/-- Takes a token where a value has to start. -/
def start (frames : List Frame) : Token → Option Expecting
  | .scalar value => some (.valueEnd value frames)
  | .string (some s) => some (.valueEnd (.text s) frames)
  | .string none => some (.valueEnd .unreadable frames)
  | .openBracket => some (.firstItem frames)
  | .openBrace => some (.firstName frames)
  | _ => none

/-- Takes a token. -/
def step : Expecting → Token → Option Expecting
  | .valueStart frames, token => start frames token
  | .firstItem frames, .closeBracket => some (complete (.array []) frames)
  | .firstItem frames, token => start (.array [] :: frames) token
  | .firstName frames, .closeBrace => some (complete (.object []) frames)
  | .firstName frames, .string name => some (.nameEnd (some []) name frames)
  | .nextName members frames, .string name => some (.nameEnd members name frames)
  | .nameEnd members name frames, .colon => some (.valueStart (.object members name :: frames))
  | .valueEnd value (.array items :: frames), .comma =>
      some (.valueStart (.array (value :: items) :: frames))
  | .valueEnd value (.array items :: frames), .closeBracket =>
      some (complete (.array (value :: items).reverse) frames)
  | .valueEnd value (.object members name :: frames), .comma =>
      some (.nextName (addMember members name value) frames)
  | .valueEnd value (.object members name :: frames), .closeBrace =>
      some (complete (closeObject (addMember members name value)) frames)
  | _, _ => none

/-- The value that has been read when the text ends. -/
def value? : Expecting → Option Json
  | .valueEnd value [] => some value
  | _ => none

end Expecting

/-- Reads one value and nothing else from a text. -/
def parse? (source : String) : Option Json := do
  let tokens ← tokens? source.toList
  let state ← tokens.foldlM Expecting.step (.valueStart [])
  state.value?

end FilterQuery.Json
