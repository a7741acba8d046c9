import FilterQuery.Proofs.Compile.Forms
import FilterQuery.Proofs.Compile.Strategies
import FilterQuery.Proofs.Number.Digits
import Mathlib.Data.List.Forall2

/-!
# Lists of arguments

Membership is asked of a list of arguments.  Each of them is read on its own, the null token as a
missing value and any other by the parser.  So the values stand in the order of the arguments, with
those that are repeated, and a list that cannot be read fails as its first argument that cannot.

With the usual parser the decimal texts of words are read as these words, however many there are.
-/

namespace FilterQuery

namespace Literals

variable {literals : Literals} {type : AttributeType}

/-! ## Reading -/

/-- The value that an argument stands for on its own. -/
inductive Reads (literals : Literals) (type : AttributeType) : String → Value → Prop
  | missing : Reads literals type literals.nullToken .null
  | value {argument : String} {value : Value} (given : argument ≠ literals.nullToken)
      (parsed : literals.parser argument type = .ok value) : Reads literals type argument value

theorem Reads.null_or_parsed {argument : String} {value : Value}
    (reads : literals.Reads type argument value) :
    value = .null ∨ literals.parser argument type = .ok value := by
  cases reads with
  | missing => exact .inl rfl
  | value given parsed => exact .inr parsed

/-- The null token stands for nothing but a missing value. -/
theorem Reads.eq_null {value : Value} (reads : literals.Reads type literals.nullToken value) :
    value = .null := by
  cases reads with
  | missing => rfl
  | value given parsed => exact absurd rfl given

/-- An argument that the parser does not accept. -/
structure Refuses (literals : Literals) (type : AttributeType) (argument : String)
    (error : CompileError) : Prop where
  given : argument ≠ literals.nullToken
  failed : literals.parser argument type = .error error

theorem coerce_eq_ok_iff {argument : String} {value : Value} :
    literals.coerce argument type = .ok value ↔ literals.Reads type argument value := by
  by_cases token : argument = literals.nullToken
  · subst token
    rw [coerce, if_pos rfl]
    constructor
    · rintro ⟨⟩
      exact .missing
    · rintro (_ | ⟨given, -⟩)
      · rfl
      · exact absurd rfl given
  · rw [coerce, if_neg token]
    constructor
    · exact .value token
    · rintro (_ | ⟨-, parsed⟩)
      · exact absurd rfl token
      · exact parsed

theorem coerce_eq_error_iff {argument : String} {error : CompileError} :
    literals.coerce argument type = .error error ↔ literals.Refuses type argument error := by
  by_cases token : argument = literals.nullToken
  · rw [coerce, if_pos token]
    constructor
    · intro failed
      cases failed
    · intro refuses
      exact absurd token refuses.given
  · rw [coerce, if_neg token]
    exact ⟨fun failed => ⟨token, failed⟩, Refuses.failed⟩

theorem coerceAll_cons (argument : String) (arguments : List String) :
    literals.coerceAll (argument :: arguments) type =
      literals.coerce argument type >>= fun value =>
        (literals.coerceAll arguments type).map (value :: ·) := by
  rw [coerceAll, List.mapM_cons]
  rfl

/-- The values of arguments are their readings, one by one. -/
theorem coerceAll_eq_ok_iff {arguments : List String} {values : List Value} :
    literals.coerceAll arguments type = .ok values ↔
      List.Forall₂ (literals.Reads type) arguments values := by
  induction arguments generalizing values with
  | nil =>
      rw [List.forall₂_nil_left_iff]
      exact ⟨fun read => (Except.ok.inj read).symm, fun none => none ▸ rfl⟩
  | cons argument arguments ih =>
      rw [coerceAll_cons, List.forall₂_cons_left_iff]
      cases first_eq : literals.coerce argument type with
      | error error =>
          refine ⟨nofun, ?_⟩
          rintro ⟨value, others, reads, -, -⟩
          rw [coerce_eq_ok_iff.mpr reads] at first_eq
          cases first_eq
      | ok first =>
          simp only [← ih, ← coerce_eq_ok_iff, first_eq, bind, Except.bind]
          cases literals.coerceAll arguments type <;> simp [Except.map, eq_comm]

/-- A list that cannot be read fails as the first of its arguments that cannot. -/
theorem coerceAll_eq_error_iff {arguments : List String} {error : CompileError} :
    literals.coerceAll arguments type = .error error ↔
      ∃ front argument back, arguments = front ++ argument :: back ∧
        (∀ earlier ∈ front, ∃ value, literals.Reads type earlier value) ∧
        literals.Refuses type argument error := by
  induction arguments with
  | nil => exact ⟨nofun, fun ⟨front, argument, back, split_eq, _⟩ => by simp at split_eq⟩
  | cons first others ih =>
      rw [coerceAll_cons]
      constructor
      · intro failed
        cases first_eq : literals.coerce first type with
        | error found =>
            rw [first_eq] at failed
            cases failed
            exact ⟨[], first, others, rfl, nofun, coerce_eq_error_iff.mp first_eq⟩
        | ok value =>
            have failedLater : literals.coerceAll others type = .error error := by
              rw [first_eq] at failed
              cases others_eq : literals.coerceAll others type with
              | error found =>
                  rw [others_eq] at failed
                  cases failed
                  rfl
              | ok values =>
                  rw [others_eq] at failed
                  cases failed
            rcases ih.mp failedLater with ⟨front, argument, back, rfl, earlier, refuses⟩
            exact ⟨first :: front, argument, back, rfl,
              List.forall_mem_cons.mpr ⟨⟨value, coerce_eq_ok_iff.mp first_eq⟩, earlier⟩, refuses⟩
      · rintro ⟨front, argument, back, split_eq, earlier, refuses⟩
        cases front with
        | nil =>
            obtain ⟨rfl, rfl⟩ := List.cons.inj split_eq
            rw [coerce_eq_error_iff.mpr refuses]
            rfl
        | cons head front =>
            obtain ⟨rfl, rfl⟩ := List.cons.inj split_eq
            rcases List.forall_mem_cons.mp earlier with ⟨⟨value, reads⟩, earlier⟩
            rw [coerce_eq_ok_iff.mpr reads, ih.mpr ⟨front, argument, back, rfl, earlier, refuses⟩]
            rfl

/-! ## Conditions -/

variable {operator : ComparisonOperator} {symbol : String} {target : Attribute}

/-- Membership asks for the values of its arguments. -/
theorem condition_membership {negated : Bool} (meaning : operator.meaning = .membership negated)
    {arguments : List String} (some : arguments ≠ []) :
    literals.condition operator symbol target arguments =
      (literals.coerceAll arguments target.type).map (.isIn target.path · negated) := by
  obtain ⟨argument, others, rfl⟩ := List.exists_cons_of_ne_nil some
  simp only [condition, meaning]
  cases literals.coerceAll (argument :: others) target.type <;> rfl

end Literals

/-! ## Decimal texts -/

theorem Text.isBlank_of_isDigit {c : Char} (h : c.isDigit = true) : isBlank c = false := by
  have digit : 48 ≤ c.toNat ∧ c.toNat ≤ 57 := Char.isDigit_iff_toNat.mp h
  simp only [isBlank, blankRanges, List.any_cons, List.any_nil, Bool.or_false, Bool.or_eq_false_iff,
    Bool.and_eq_false_iff, decide_eq_false_iff_not]
  omega

/-- The usual parser reads the text of a word as the word. -/
theorem Coercion.parse_toString (dates : DateReading) (word : Int64) :
    parse dates (toString word.toInt) .integer = .ok (.int word) := by
  have plain : ∀ c ∈ (toString word.toInt).toList, Text.isBlank c = false := by
    intro c member
    rw [Number.toList_toString, List.mem_append] at member
    rcases member with minus | digit
    · split at minus
      · rw [List.mem_singleton.mp minus]
        decide
      · cases minus
    · exact Text.isBlank_of_isDigit ((Number.toDigits_isRun _).isDigit c digit)
  rw [parse, Text.trim_eq_self plain, Number.readInt64?_toString]
  rfl

/-! ## Compiles -/

namespace Scope

variable {scope : Scope} {query next : Query} {target : Attribute}

/-- A comparison with a built-in symbol is compiled by its condition, whether there is a strategy or
not. -/
theorem compile_eq_of_resolve (strategy : Option Strategy) {operator : ComparisonOperator}
    {selector symbol : String} (parsed : ComparisonOperator.parse? symbol = some operator)
    (resolved : scope.resolve selector query = (.ok target, next)) (arguments : List String) :
    scope.compile strategy (.comparison ⟨selector, symbol, arguments⟩) query =
      Compile.ofExcept (scope.literals.condition operator symbol target arguments) next := by
  rw [compile_of_isSymbol, compile_none, Filter.compileWith]
  · exact compileBuiltin_of_resolve parsed resolved arguments
  · simp [Filter.comparisons, ComparisonOperator.isSymbol_iff, parsed]

/-- A list of arguments is compiled to one value for each of them, in order: a missing value for the
null token, and for another argument what the parser gives for it alone.  Otherwise the compile
fails with the error of the first argument that the parser does not accept.  For the usual parser
and an integer attribute, the values of decimal texts are the words that they show. -/
theorem compile_membership (strategy : Option Strategy) {operator : ComparisonOperator}
    {negated : Bool} {selector symbol : String}
    (parsed : ComparisonOperator.parse? symbol = some operator)
    (meaning : operator.meaning = .membership negated)
    (resolved : scope.resolve selector query = (.ok target, next)) :
    (∀ arguments : List String, arguments ≠ [] →
      (∃ values, scope.compile strategy (.comparison ⟨selector, symbol, arguments⟩) query =
          (.ok (.isIn target.path values negated), next) ∧
        values.length = arguments.length ∧
        ∀ (i : Nat) argument value, arguments[i]? = some argument → values[i]? = some value →
          scope.literals.Reads target.type argument value) ∨
      ∃ front argument back error, arguments = front ++ argument :: back ∧
        (∀ earlier ∈ front, ∃ value, scope.literals.Reads target.type earlier value) ∧
        scope.literals.Refuses target.type argument error ∧
        scope.compile strategy (.comparison ⟨selector, symbol, arguments⟩) query =
          (.error (.rejected error), next)) ∧
    ∀ (dates : DateReading) (words : List Int64), scope.parser = .withDates dates →
      target.type = .integer → (∀ word : Int64, toString word.toInt ≠ scope.options.nullToken) →
      words ≠ [] →
        scope.compile strategy
            (.comparison ⟨selector, symbol, words.map (toString ·.toInt)⟩) query =
          (.ok (.isIn target.path (words.map .int) negated), next) := by
  constructor
  · intro arguments some
    have compiled := compile_eq_of_resolve strategy parsed resolved arguments
    rw [Literals.condition_membership meaning some] at compiled
    cases values_eq : scope.literals.coerceAll arguments target.type with
    | ok values =>
        rw [values_eq] at compiled
        have reads := Literals.coerceAll_eq_ok_iff.mp values_eq
        refine .inl ⟨values, compiled, reads.length_eq.symm, ?_⟩
        intro i argument value argument_eq value_eq
        obtain ⟨inside, rfl⟩ := List.getElem?_eq_some_iff.mp argument_eq
        obtain ⟨inside', rfl⟩ := List.getElem?_eq_some_iff.mp value_eq
        exact reads.get inside inside'
    | error error =>
        rw [values_eq] at compiled
        rcases Literals.coerceAll_eq_error_iff.mp values_eq with
          ⟨front, argument, back, split_eq, earlier, refuses⟩
        exact .inr ⟨front, argument, back, error, split_eq, earlier, refuses, compiled⟩
  · intro dates words parser_eq integer given some
    have reads : List.Forall₂ (scope.literals.Reads target.type)
        (words.map (toString ·.toInt)) (words.map .int) := by
      rw [List.forall₂_map_left_iff, List.forall₂_map_right_iff, List.forall₂_same]
      intro word _
      refine .value (given word) ?_
      rw [integer, show scope.literals.parser = .withDates dates from parser_eq]
      exact Coercion.parse_toString dates word
    rw [compile_eq_of_resolve strategy parsed resolved, Literals.condition_membership meaning
      (mt List.map_eq_nil_iff.mp some), Literals.coerceAll_eq_ok_iff.mpr reads]
    rfl

/-- No word is written as the usual null token. -/
theorem toString_ne_null (word : Int64) : toString word.toInt ≠ "null" := by
  intro same
  have read := Number.readInt64?_toString word
  have unread : Number.readInt64? "null".toList = none := by decide
  rw [same, unread] at read
  cases read

/-- The members of a department are looked for by a list with a missing value and an argument twice,
and by the least and the greatest word. -/
theorem compile_membership_members :
    let scope := ({} : Configuration).scope company.metadata (.root ⟨1⟩) defaultSteps
    let target : Attribute := ⟨⟨.join 0, ["id"]⟩, "id", .integer⟩
    let words : List Int64 := [Int64.minValue, 7, Int64.maxValue, 7]
    ∃ next, scope.resolve "members.id" (.select ⟨1⟩) = (.ok target, next) ∧
      (∃ values,
        scope.compile none (.comparison ⟨"members.id", "=in=", ["3", "null", "3"]⟩) (.select ⟨1⟩) =
          (.ok (.isIn target.path values false), next) ∧ values.length = 3 ∧
        ∀ (i : Nat) argument value, ["3", "null", "3"][i]? = some argument →
          values[i]? = some value → scope.literals.Reads target.type argument value) ∧
      words ≠ [] ∧ (∀ word : Int64, toString word.toInt ≠ scope.options.nullToken) ∧
      scope.compile none
          (.comparison ⟨"members.id", "=out=", words.map (toString ·.toInt)⟩) (.select ⟨1⟩) =
        (.ok (.isIn target.path (words.map .int) true), next) := by
  intro scope target words
  let next := (scope.resolve "members.id" (.select ⟨1⟩)).2
  have resolved : scope.resolve "members.id" (.select ⟨1⟩) = (.ok target, next) :=
    Prod.ext (by decide +kernel) rfl
  have succeeds : (scope.compile none (.comparison ⟨"members.id", "=in=", ["3", "null", "3"]⟩)
      (.select ⟨1⟩)).1.isOk = true := by decide +kernel
  have inside := compile_membership none
    (show ComparisonOperator.parse? "=in=" = some .isIn from rfl) rfl resolved
  have outside := compile_membership none
    (show ComparisonOperator.parse? "=out=" = some .notIn from rfl) rfl resolved
  refine ⟨next, resolved, ?_, List.cons_ne_nil _ _, toString_ne_null,
    outside.2 _ words rfl rfl toString_ne_null (List.cons_ne_nil _ _)⟩
  rcases inside.1 ["3", "null", "3"] (List.cons_ne_nil _ _) with
    accepted | ⟨_, _, _, _, -, -, -, failed⟩
  · exact accepted
  · rw [failed] at succeeds
    cases succeeds

end Scope

end FilterQuery
