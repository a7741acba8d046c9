/-!
# Glob patterns

In a glob pattern `*` stands for any run of characters, the empty run
included; every other character stands for itself.

A match goes through the text and the pattern with a cursor in each.  A star
stands for the empty run at first.  Where the characters that follow it do not
fit, the match goes back to the star that was passed last and lets it stand for
one character more.  Stars in front of that one are left as they are: what a
longer run could gain there, the last star can take up as well.
-/

namespace FilterQuery.Text.Glob

/-- A star that has been passed. -/
structure Star where
  /-- Its place in the pattern. -/
  place : Nat
  /-- The end of the run in the text that it stands for. -/
  reach : Nat
  deriving DecidableEq, Repr

/-- Where a match has come to. -/
structure Cursor where
  /-- The place of the next character of the text. -/
  text : Nat
  /-- The place of the next character of the pattern. -/
  pattern : Nat
  /-- The star that was passed last. -/
  star : Option Star
  deriving DecidableEq, Repr

/-- How far a match has come. -/
inductive Progress
  | matching (cursor : Cursor)
  | stopped (matched : Bool)
  /-- A place outside the text or outside the pattern has been read. -/
  | outside
  deriving DecidableEq, Repr

namespace Cursor

/-- The cursor at the start of a text and a pattern. -/
def start : Cursor :=
  { text := 0, pattern := 0, star := none }

/-- Takes a character of the pattern that stands for itself. -/
def takeChar (cursor : Cursor) : Cursor :=
  { cursor with text := cursor.text + 1, pattern := cursor.pattern + 1 }

/-- Passes a star, which stands for the empty run. -/
def passStar (cursor : Cursor) : Cursor :=
  { cursor with
    pattern := cursor.pattern + 1
    star := some { place := cursor.pattern, reach := cursor.text } }

/-- Goes back to the last star and lets it stand for one character more. -/
def retry (cursor : Cursor) : Progress :=
  match cursor.star with
  | some star =>
      .matching
        { text := star.reach + 1
          pattern := star.place + 1
          star := some { star with reach := star.reach + 1 } }
  | none => .stopped false

end Cursor

/-- Goes on with the character at a place. -/
def read (chars : Array Char) (place : Nat) (next : Char → Progress) : Progress :=
  match chars[place]? with
  | some c => next c
  | none => .outside

/-- Takes one step.  At the end of the text only stars may be left. -/
def step (text pattern : Array Char) (cursor : Cursor) : Progress :=
  if cursor.text < text.size then
    if cursor.pattern < pattern.size then
      read pattern cursor.pattern fun c =>
        if c = '*' then .matching cursor.passStar
        else
          read text cursor.text fun d =>
            if c = d then .matching cursor.takeChar else cursor.retry
    else cursor.retry
  else if cursor.pattern ≤ pattern.size then
    .stopped ((pattern.toList.drop cursor.pattern).all fun c => c = '*')
  else .outside

/-- Takes at most the given number of steps. -/
def run (text pattern : Array Char) : Nat → Cursor → Progress
  | 0, cursor => .matching cursor
  | steps + 1, cursor =>
      match step text pattern cursor with
      | .matching next => run text pattern steps next
      | .stopped matched => .stopped matched
      | .outside => .outside

/-- A number of steps in which every match comes to its end. -/
def enoughSteps (text pattern : Array Char) : Nat :=
  (text.size + pattern.size + 1) * (pattern.size + 1)

/-- Whether a text follows a pattern. -/
def accepts (text pattern : String) : Bool :=
  let text := text.toList.toArray
  let pattern := pattern.toList.toArray
  match run text pattern (enoughSteps text pattern) .start with
  | .stopped matched => matched
  | _ => false

end FilterQuery.Text.Glob
