import FilterQuery.Predicate.Display
import FilterQuery.Proofs.Number.Digits
import FilterQuery.Proofs.Text.Quoting

/-!
# Literals in the text of a predicate

The text of a predicate is read by the rule for quotes as what it was written from: its texts and
patterns are the literals, and everything else stands outside of them.  So no text can end its
literal early, and what stands outside does not depend on the texts.
-/

namespace FilterQuery

open FilterQuery.Number
open FilterQuery.Text.Quoting

/-! ## Numbers -/

theorem quote_not_mem_toDigits (n : Nat) : '\'' ∉ Nat.toDigits 10 n :=
  fun quote => absurd ((toDigits_isRun n).isDigit _ quote) (by decide)

theorem unquoted_nat (n : Nat) : Unquoted (toString n) := by
  rw [Unquoted, show (toString n).toList = Nat.toDigits 10 n from Nat.toList_repr]
  exact quote_not_mem_toDigits n

theorem unquoted_int (n : Int) : Unquoted (toString n) := by
  rw [Unquoted, toList_toString, List.mem_append]
  rintro (sign | digits)
  · split at sign
    · cases sign with
      | tail _ member => cases member
    · cases sign
  · exact quote_not_mem_toDigits _ digits

theorem unquoted_writtenOut {digits : List Char} (noQuotes : '\'' ∉ digits) (place : Int) :
    Unquoted (Value.floatLayout.writtenOut digits place) := by
  unfold NumberLayout.writtenOut NumberLayout.zeros
  split
  · simp [Unquoted, noQuotes, List.mem_replicate]
  · split
    · simp [Unquoted, noQuotes, List.mem_replicate, Value.floatLayout]
    · have front : '\'' ∉ digits.take place.toNat := fun quote =>
        noQuotes (List.mem_of_mem_take quote)
      have back : '\'' ∉ digits.drop place.toNat := fun quote =>
        noQuotes (List.mem_of_mem_drop quote)
      simp [Unquoted, front, back]

theorem unquoted_float (x : Binary64) : Unquoted (Value.floatLayout.write x) := by
  have sign : Unquoted (if x.isNegative then "-" else "") := by
    split <;> decide
  unfold NumberLayout.write
  split
  · decide
  · apply sign.append
    split
    · decide
    · split
      · decide
      · exact unquoted_writtenOut (quote_not_mem_toDigits _) _

/-! ## Parts of conditions -/

/-- A path without quotes in its segments. -/
def AttributePath.QuoteFree (path : AttributePath) : Prop :=
  ∀ segment ∈ path.segments, Unquoted segment

theorem unquoted_context (context : Context) : Unquoted context.display := by
  cases context with
  | root => decide
  | join id => exact Unquoted.append (by decide) (unquoted_nat id)

theorem AttributePath.QuoteFree.unquoted {path : AttributePath} (quoteFree : path.QuoteFree) :
    Unquoted path.display := by
  apply (unquoted_context path.root).append
  rw [Unquoted, String.toList_join, List.mem_flatMap]
  rintro ⟨_, dotted, quote⟩
  rcases List.mem_map.mp dotted with ⟨segment, member, rfl⟩
  exact Unquoted.append (by decide) (quoteFree segment member) quote

theorem unquoted_sign (op : CompareOp) : Unquoted op.sign := by
  cases op <;> decide

theorem unquoted_negation (negated : Bool) : Unquoted (Predicate.negation negated) := by
  cases negated <;> decide

/-- What stands between a path and its texts, or behind it. -/
theorem AttributePath.QuoteFree.unquoted_negated {path : AttributePath}
    (quoteFree : path.QuoteFree) (negated : Bool) {between word : String}
    (between_plain : Unquoted between) (word_plain : Unquoted word) :
    Unquoted (path.display ++ between ++ Predicate.negation negated ++ word) :=
  ((quoteFree.unquoted.append between_plain).append (unquoted_negation negated)).append word_plain

/-! ## Values -/

namespace Value

/-- An enumeration constant without quotes in its name, or any other value. -/
def QuoteFree : Value → Prop
  | .enum _ name => Unquoted name
  | _ => True

/-- The texts in a value. -/
def texts : Value → List String
  | .text s => [s]
  | _ => []

/-- The value with the empty text for any text. -/
def withoutTexts : Value → Value
  | .text _ => .text ""
  | value => value

/-- The text of a value in pieces. -/
def pieces : Value → List Piece
  | .text s => [.literal s]
  | value => plain value.display

theorem reads_display {value : Value} (quoteFree : value.QuoteFree) :
    Reads value.display value.pieces := by
  cases value with
  | null => exact reads_plain (by decide)
  | bool b => cases b <;> exact reads_plain (by decide)
  | int n => exact reads_plain (unquoted_int _)
  | float x => exact reads_plain (unquoted_float x)
  | text s => exact reads_quoted s
  | enum _ name => exact reads_plain quoteFree
  | instant nanos =>
      exact reads_plain (.append (.append (by decide) (unquoted_int nanos)) (by decide))

theorem contents_pieces (value : Value) : contents value.pieces = value.texts := by
  cases value with
  | text s => rfl
  | null | bool | int | float | enum | instant => exact contents_plain _

theorem outline_pieces (value : Value) : outline value.pieces = value.withoutTexts.pieces := by
  cases value with
  | text s => rfl
  | null | bool | int | float | enum | instant => exact outline_plain _

end Value

/-! ## Predicates -/

namespace Predicate

mutual
/-- A predicate without quotes in its paths and in the names of its enumeration constants. -/
def QuoteFree : Predicate → Prop
  | .compare path _ value => path.QuoteFree ∧ value.QuoteFree
  | .like path _ _ => path.QuoteFree
  | .isNull path _ => path.QuoteFree
  | .isIn path values _ => path.QuoteFree ∧ ∀ value ∈ values, value.QuoteFree
  | .and children => QuoteFreeEach children
  | .or children => QuoteFreeEach children

def QuoteFreeEach : List Predicate → Prop
  | [] => True
  | child :: children => child.QuoteFree ∧ QuoteFreeEach children
end

mutual
/-- The texts and patterns in a predicate from left to right, the patterns with percent signs for
their stars. -/
def texts : Predicate → List String
  | .compare _ _ value => value.texts
  | .like _ pattern _ => [likePattern pattern]
  | .isNull _ _ => []
  | .isIn _ values _ => values.flatMap Value.texts
  | .and children => textsOfChildren children
  | .or children => textsOfChildren children

def textsOfChildren : List Predicate → List String
  | [] => []
  | child :: children => child.texts ++ textsOfChildren children
end

mutual
/-- The predicate with empty texts and patterns.  Predicates differ only in their texts and patterns
if they are equal without them. -/
def withoutTexts : Predicate → Predicate
  | .compare path op value => .compare path op value.withoutTexts
  | .like path _ negated => .like path "" negated
  | .isNull path negated => .isNull path negated
  | .isIn path values negated => .isIn path (values.map Value.withoutTexts) negated
  | .and children => .and (withoutTextsEach children)
  | .or children => .or (withoutTextsEach children)

def withoutTextsEach : List Predicate → List Predicate
  | [] => []
  | child :: children => child.withoutTexts :: withoutTextsEach children
end

mutual
/-- The text of a predicate in pieces. -/
def pieces : Predicate → List Piece
  | .compare path op value => plain (path.display ++ " " ++ op.sign ++ " ") ++ value.pieces
  | .like path pattern negated =>
      plain (path.display ++ " " ++ negation negated ++ "LIKE ") ++ [.literal (likePattern pattern)]
  | .isNull path negated => plain (path.display ++ " IS " ++ negation negated ++ "NULL")
  | .isIn path values negated =>
      plain (path.display ++ " " ++ negation negated ++ "IN (")
        ++ ((plain ", ").intercalate (values.map Value.pieces) ++ plain ")")
  | .and children => plain "(" ++ ((plain " AND ").intercalate (piecesOfEach children) ++ plain ")")
  | .or children => plain "(" ++ ((plain " OR ").intercalate (piecesOfEach children) ++ plain ")")

def piecesOfEach : List Predicate → List (List Piece)
  | [] => []
  | child :: children => child.pieces :: piecesOfEach children
end

theorem piecesOfEach_eq_map (children : List Predicate) :
    piecesOfEach children = children.map pieces := by
  induction children with
  | nil => rfl
  | cons child children ih => rw [piecesOfEach, ih, List.map_cons]

/-- Texts in parentheses. -/
theorem reads_parentheses {α : Type} {front between : String} (front_plain : Unquoted front)
    (between_plain : Unquoted between) (apart : between ≠ "") {display : α → String}
    {shown : α → List Piece} {items : List α}
    (reads : ∀ item ∈ items, Reads (display item) (shown item)) :
    Reads (front ++ (between.intercalate (items.map display) ++ ")"))
      (plain front ++ ((plain between).intercalate (items.map shown) ++ plain ")")) :=
  ((reads_intercalate between_plain apart display shown items reads).append_plain (by decide)
    (by decide)).plain_append front_plain

theorem reads_group {between : String} (between_plain : Unquoted between) (apart : between ≠ "")
    {children : List Predicate} (reads : ∀ child ∈ children, Reads child.display child.pieces) :
    Reads ("(" ++ between.intercalate (displayChildren children) ++ ")")
      (plain "(" ++ ((plain between).intercalate (piecesOfEach children) ++ plain ")")) := by
  rw [String.append_assoc, displayChildren_eq_map, piecesOfEach_eq_map]
  exact reads_parentheses (by decide) between_plain apart reads

mutual
/-- The text of a predicate is read as its pieces. -/
theorem reads_display : (predicate : Predicate) → predicate.QuoteFree →
    Reads predicate.display predicate.pieces
  | .compare path op value, quoteFree => by
      have front : Unquoted (path.display ++ " " ++ op.sign ++ " ") :=
        ((quoteFree.1.unquoted.append (by decide)).append (unquoted_sign op)).append (by decide)
      exact (Value.reads_display quoteFree.2).plain_append front
  | .like path pattern negated, quoteFree => by
      rw [QuoteFree] at quoteFree
      exact (reads_quoted (likePattern pattern)).plain_append
        (quoteFree.unquoted_negated negated (by decide) (by decide))
  | .isNull path negated, quoteFree => by
      rw [QuoteFree] at quoteFree
      exact reads_plain (quoteFree.unquoted_negated negated (by decide) (by decide))
  | .isIn path values negated, quoteFree => by
      rw [display, String.append_assoc]
      exact reads_parentheses (quoteFree.1.unquoted_negated negated (by decide) (by decide))
        (by decide) (by decide)
        fun value member => Value.reads_display (quoteFree.2 value member)
  | .and children, quoteFree =>
      reads_group (by decide) (by decide) (reads_displayChildren children quoteFree)
  | .or children, quoteFree =>
      reads_group (by decide) (by decide) (reads_displayChildren children quoteFree)

theorem reads_displayChildren : (children : List Predicate) → QuoteFreeEach children →
    ∀ child ∈ children, Reads child.display child.pieces
  | [], _ => fun _ member => nomatch member
  | first :: rest, quoteFree =>
      List.forall_mem_cons.mpr
        ⟨reads_display first quoteFree.1, reads_displayChildren rest quoteFree.2⟩
end

mutual
/-- The literals among the pieces of a predicate are its texts and patterns. -/
theorem contents_pieces : (predicate : Predicate) → contents predicate.pieces = predicate.texts
  | .compare path op value => by
      rw [pieces, contents_append, contents_plain, Value.contents_pieces]
      rfl
  | .like path pattern negated => by
      rw [pieces, contents_append, contents_plain]
      rfl
  | .isNull path negated => by
      rw [pieces, contents_plain]
      rfl
  | .isIn path values negated => by
      simp [pieces, texts, contents_intercalate, List.flatMap_map, Value.contents_pieces]
  | .and children => by
      simp [pieces, texts, contents_intercalate, contents_piecesOfEach children]
  | .or children => by
      simp [pieces, texts, contents_intercalate, contents_piecesOfEach children]

theorem contents_piecesOfEach : (children : List Predicate) →
    (piecesOfEach children).flatMap contents = textsOfChildren children
  | [] => rfl
  | child :: children => by
      rw [piecesOfEach, List.flatMap_cons, contents_pieces child, contents_piecesOfEach children]
      rfl
end

mutual
/-- The pieces outside of literals do not depend on the texts and patterns. -/
theorem outline_pieces : (predicate : Predicate) →
    outline predicate.pieces = predicate.withoutTexts.pieces
  | .compare path op value => by
      rw [pieces, outline_append, outline_plain, Value.outline_pieces]
      rfl
  | .like path pattern negated => by
      rw [pieces, outline_append, outline_plain]
      rfl
  | .isNull path negated => by
      rw [pieces, outline_plain]
      rfl
  | .isIn path values negated => by
      simp [pieces, withoutTexts, outline_intercalate, Function.comp_def, Value.outline_pieces]
  | .and children => by
      simp [pieces, withoutTexts, outline_intercalate, outline_piecesOfEach children]
  | .or children => by
      simp [pieces, withoutTexts, outline_intercalate, outline_piecesOfEach children]

theorem outline_piecesOfEach : (children : List Predicate) →
    (piecesOfEach children).map outline = piecesOfEach (withoutTextsEach children)
  | [] => rfl
  | child :: children => by
      rw [piecesOfEach, List.map_cons, outline_pieces child, outline_piecesOfEach children]
      rfl
end

/-- The text of a predicate without quotes in its paths and constants ends outside of literals, and
its literals are its texts and patterns.  Outside of its literals it is the same as the text of
every such predicate that differs only in these. -/
theorem literals_of_display {predicate : Predicate} (quoteFree : predicate.QuoteFree) :
    ∃ pieces, pieces? predicate.display = some pieces ∧ contents pieces = predicate.texts ∧
      ∀ other : Predicate, other.QuoteFree → other.withoutTexts = predicate.withoutTexts →
        ∃ others, pieces? other.display = some others ∧ outline others = outline pieces := by
  refine ⟨predicate.pieces, (predicate.reads_display quoteFree).pieces?_eq,
    predicate.contents_pieces, ?_⟩
  intro other other_quoteFree same
  refine ⟨other.pieces, (other.reads_display other_quoteFree).pieces?_eq, ?_⟩
  rw [outline_pieces, outline_pieces, same]

/-- A conjunction of a comparison with a text, a pattern and a list with a text in it. -/
def threeTexts (name pattern level : String) : Predicate :=
  .and [.compare ⟨.root, ["name"]⟩ .eq (.text name), .like ⟨.join 0, ["code"]⟩ pattern true,
    .isIn ⟨.root, ["level"]⟩ [.enum 1 "LOW", .text level, .null] false]

theorem quoteFree_threeTexts (name pattern level : String) :
    (threeTexts name pattern level).QuoteFree := by
  have path (context : Context) {segment : String} (noQuotes : Unquoted segment) :
      AttributePath.QuoteFree ⟨context, [segment]⟩ :=
    List.forall_mem_singleton.mpr noQuotes
  refine ⟨⟨path _ (by decide), trivial⟩, path _ (by decide), ⟨path _ (by decide), ?_⟩, trivial⟩
  intro value member
  simp only [List.mem_cons, List.not_mem_nil, or_false] at member
  rcases member with rfl | rfl | rfl
  · exact (by decide : Unquoted "LOW")
  · trivial
  · trivial

/-- Texts that look like the end of a literal. -/
theorem literals_of_display_threeTexts :
    (threeTexts "O'Neil' OR ''='" "'*)" "', '").display =
        "(root.name = 'O''Neil'' OR ''''=''' AND j0.code NOT LIKE '''%)' AND " ++
          "root.level IN (LOW, ''', ''', NULL))" ∧
      ∃ pieces others,
        pieces? (threeTexts "O'Neil' OR ''='" "'*)" "', '").display = some pieces ∧
        contents pieces = ["O'Neil' OR ''='", "'%)", "', '"] ∧
        pieces? (threeTexts "Ann" "*" "HIGH").display = some others ∧
        outline others = outline pieces := by
  refine ⟨by decide +kernel, ?_⟩
  obtain ⟨pieces, pieces_eq, contents_eq, same⟩ :=
    literals_of_display (quoteFree_threeTexts "O'Neil' OR ''='" "'*)" "', '")
  obtain ⟨others, others_eq, outline_eq⟩ :=
    same (threeTexts "Ann" "*" "HIGH") (quoteFree_threeTexts _ _ _) rfl
  exact ⟨pieces, others, pieces_eq, contents_eq.trans (by decide +kernel), others_eq, outline_eq⟩

end Predicate

end FilterQuery
