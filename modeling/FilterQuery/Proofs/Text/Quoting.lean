import FilterQuery.Text.Quoted
import Mathlib.Data.List.Basic

/-!
# Reading quoted text

A text is scanned from left to right.  A quote opens a literal; inside of it two quotes stand for
one, and a single one closes it.  Whether a quote closes its literal shows only behind it.  So a
literal may be followed by anything but a quote, and whatever a text holds, its quoted form is
scanned as one literal with the text in it.
-/

namespace FilterQuery.Text.Quoting

/-! ## Scanning -/

/-- A part of a text: a character outside of literals, or what a literal stands for. -/
inductive Piece
  | plain (c : Char)
  | literal (content : String)
  deriving DecidableEq

/-- Where a scan is. -/
inductive Place
  | outside
  | inside (content : List Char)
  /-- Behind a quote that closes its literal unless another one follows. -/
  | closing (content : List Char)
  deriving DecidableEq

/-- A scan under way, with the pieces read so far but for a literal that may still go on. -/
structure Scan where
  pieces : List Piece
  place : Place
  deriving DecidableEq

/-- Reads a character. -/
def step (scan : Scan) (c : Char) : Scan :=
  match scan.place with
  | .outside =>
      if c = '\'' then { scan with place := .inside [] }
      else { scan with pieces := scan.pieces ++ [.plain c] }
  | .inside content =>
      if c = '\'' then { scan with place := .closing content }
      else { scan with place := .inside (content ++ [c]) }
  | .closing content =>
      if c = '\'' then { scan with place := .inside (content ++ [c]) }
      else ⟨scan.pieces ++ [.literal (String.ofList content), .plain c], .outside⟩

/-- Reads a text. -/
def run (scan : Scan) (text : List Char) : Scan :=
  text.foldl step scan

/-- What has been read, unless it ends inside a literal. -/
def Scan.pieces? (scan : Scan) : Option (List Piece) :=
  match scan.place with
  | .outside => some scan.pieces
  | .inside _ => none
  | .closing content => some (scan.pieces ++ [.literal (String.ofList content)])

/-- The pieces of a text, unless it ends inside a literal. -/
def pieces? (text : String) : Option (List Piece) :=
  (run ⟨[], .outside⟩ text.toList).pieces?

/-- What the literals of a text stand for, from left to right. -/
def contents : List Piece → List String
  | [] => []
  | .plain _ :: pieces => contents pieces
  | .literal content :: pieces => content :: contents pieces

/-- A text without what its literals stand for. -/
def outline (pieces : List Piece) : List Piece :=
  pieces.map fun
    | .plain c => .plain c
    | .literal _ => .literal ""

@[simp]
theorem run_nil (scan : Scan) : run scan [] = scan :=
  rfl

@[simp]
theorem run_cons (scan : Scan) (c : Char) (text : List Char) :
    run scan (c :: text) = run (step scan c) text :=
  rfl

theorem run_append (scan : Scan) (text more : List Char) :
    run scan (text ++ more) = run (run scan text) more :=
  List.foldl_append

/-! ## Plain text -/

/-- Text without quotes. -/
def Unquoted (text : String) : Prop :=
  '\'' ∉ text.toList

instance (text : String) : Decidable (Unquoted text) :=
  inferInstanceAs (Decidable ('\'' ∉ text.toList))

theorem Unquoted.append {text more : String} (noQuotes : Unquoted text) (others : Unquoted more) :
    Unquoted (text ++ more) := by
  rw [Unquoted, String.toList_append, List.mem_append]
  exact not_or.mpr ⟨noQuotes, others⟩

/-- The pieces of text without quotes. -/
def plain (text : String) : List Piece :=
  text.toList.map .plain

variable {done pieces more : List Piece} {text rest between : String}

theorem plain_append (text more : String) : plain (text ++ more) = plain text ++ plain more := by
  simp [plain]

@[simp]
theorem contents_append (pieces more : List Piece) :
    contents (pieces ++ more) = contents pieces ++ contents more := by
  induction pieces with
  | nil => rfl
  | cons piece pieces ih => cases piece <;> simp [contents, ih]

@[simp]
theorem contents_plain (text : String) : contents (plain text) = [] := by
  rw [plain]
  induction text.toList with
  | nil => rfl
  | cons c text ih => simpa [contents] using ih

@[simp]
theorem outline_append (pieces more : List Piece) :
    outline (pieces ++ more) = outline pieces ++ outline more :=
  List.map_append

@[simp]
theorem outline_plain (text : String) : outline (plain text) = plain text := by
  simp [outline, plain]

/-- A character that is no quote is read outside of literals, also right behind one. -/
theorem step_of_pieces? {scan : Scan} {c : Char} (ended : scan.pieces? = some pieces)
    (other : c ≠ '\'') : step scan c = ⟨pieces ++ [.plain c], .outside⟩ := by
  rcases scan with ⟨read, place⟩
  cases place with
  | outside =>
      cases ended
      simp [step, other]
  | inside content => cases ended
  | closing content =>
      cases ended
      simp [step, other]

theorem run_plain (done : List Piece) {text : List Char} (noQuotes : '\'' ∉ text) :
    run ⟨done, .outside⟩ text = ⟨done ++ text.map .plain, .outside⟩ := by
  induction text generalizing done with
  | nil => simp
  | cons c text ih =>
      rcases not_or.mp (mt List.mem_cons.mpr noQuotes) with ⟨differs, others⟩
      have ended : (⟨done, .outside⟩ : Scan).pieces? = some done := rfl
      rw [run_cons, step_of_pieces? ended (Ne.symm differs), ih _ others]
      simp

/-! ## Literals -/

/-- Inside a literal, doubled quotes are read as the quotes of the text. -/
theorem run_doubleQuotes (done : List Piece) (content text : List Char) :
    run ⟨done, .inside content⟩ (doubleQuotes text) = ⟨done, .inside (content ++ text)⟩ := by
  induction text generalizing content with
  | nil => simp [doubleQuotes]
  | cons c text ih =>
      rw [doubleQuotes]
      split
      · rename_i quote
        rw [run_cons, run_cons, quote]
        simpa [step] using ih (content ++ ['\''])
      · rename_i other
        rw [run_cons]
        simpa [step, other] using ih (content ++ [c])

/-- A quoted text is read up to its last quote. -/
theorem run_quoted (done : List Piece) (text : String) :
    run ⟨done, .outside⟩ (quoted text).toList = ⟨done, .closing text.toList⟩ := by
  have toList_eq : (quoted text).toList = '\'' :: (doubleQuotes text.toList ++ ['\'']) := by
    simp [quoted]
  rw [toList_eq, run_cons, run_append]
  simp [step, run_doubleQuotes]

/-! ## Texts and their pieces -/

/-- Wherever a text starts outside of literals, it is read as the given pieces. -/
def Reads (text : String) (pieces : List Piece) : Prop :=
  ∀ done, (run ⟨done, .outside⟩ text.toList).pieces? = some (done ++ pieces)

theorem Reads.pieces?_eq (reads : Reads text pieces) : pieces? text = some pieces :=
  reads []

theorem reads_plain (noQuotes : Unquoted text) : Reads text (plain text) := by
  intro done
  rw [run_plain done noQuotes]
  rfl

theorem reads_quoted (text : String) : Reads (quoted text) [.literal text] := by
  intro done
  simp only [run_quoted, Scan.pieces?, String.ofList_toList]

/-- Plain text may stand in front of any text. -/
theorem Reads.plain_append (reads : Reads text pieces) (noQuotes : Unquoted between) :
    Reads (between ++ text) (plain between ++ pieces) := by
  intro done
  rw [String.toList_append, run_append, run_plain done noQuotes, reads]
  simp [plain]

/-- A text may stand behind another one if there is plain text between them, which shows that a
literal in front of it is closed. -/
theorem Reads.append_plain_append (reads : Reads text pieces) (noQuotes : Unquoted between)
    (apart : between ≠ "") (others : Reads rest more) :
    Reads (text ++ between ++ rest) (pieces ++ plain between ++ more) := by
  intro done
  obtain ⟨c, chars, chars_eq⟩ : ∃ c chars, between.toList = c :: chars :=
    List.exists_cons_of_ne_nil (by simpa using apart)
  have differs : c ≠ '\'' := by
    rintro rfl
    exact noQuotes (by simp [chars_eq])
  have noMore : '\'' ∉ chars := fun quote => noQuotes (by simp [chars_eq, quote])
  rw [String.toList_append, String.toList_append, run_append, run_append, chars_eq, run_cons,
    step_of_pieces? (reads done) differs, run_plain _ noMore, others]
  simp [plain, chars_eq]

theorem Reads.append_plain (reads : Reads text pieces) (noQuotes : Unquoted between)
    (apart : between ≠ "") : Reads (text ++ between) (pieces ++ plain between) := by
  have nothing : Reads "" [] := fun done => by simp [Scan.pieces?]
  simpa using reads.append_plain_append noQuotes apart nothing

/-! ## Lists of texts -/

/-- Texts with plain text between them. -/
theorem reads_intercalate {α : Type} (noQuotes : Unquoted between) (apart : between ≠ "")
    (display : α → String) (shown : α → List Piece) (items : List α)
    (reads : ∀ item ∈ items, Reads (display item) (shown item)) :
    Reads (between.intercalate (items.map display))
      ((plain between).intercalate (items.map shown)) := by
  induction items with
  | nil => exact fun done => by simp [Scan.pieces?]
  | cons first items ih =>
      have first_reads := reads first List.mem_cons_self
      cases items with
      | nil => simpa using first_reads
      | cons second items =>
          have others := ih fun item member => reads item (List.mem_cons_of_mem _ member)
          simp only [List.map_cons, String.intercalate_cons_cons, List.intercalate_cons_cons]
            at others ⊢
          exact first_reads.append_plain_append noQuotes apart others

theorem contents_intercalate (between : String) (lists : List (List Piece)) :
    contents ((plain between).intercalate lists) = lists.flatMap contents := by
  induction lists with
  | nil => rfl
  | cons first lists ih =>
      cases lists with
      | nil => simp
      | cons second lists => simp [List.intercalate_cons_cons, ih]

theorem outline_intercalate (between : String) (lists : List (List Piece)) :
    outline ((plain between).intercalate lists) =
      (plain between).intercalate (lists.map outline) := by
  induction lists with
  | nil => rfl
  | cons first lists ih =>
      cases lists with
      | nil => simp
      | cons second lists => simp [List.intercalate_cons_cons, ih]

end FilterQuery.Text.Quoting
