import FilterQuery.Filter.Condition

/-!
# The forms of a condition

Each condition is a single leaf on the path of its attribute, in one of four forms, and the
form tells which checks its arguments have passed.  Apart from the path, only the type of the
attribute bears on it.
-/

namespace FilterQuery

/-- A condition moved to another attribute. -/
def Predicate.withPath (path : AttributePath) : Predicate → Predicate
  | .compare _ op value => .compare path op value
  | .like _ pattern negated => .like path pattern negated
  | .isNull _ negated => .isNull path negated
  | .isIn _ values negated => .isIn path values negated
  | .and children => .and children
  | .or children => .or children

namespace Literals

variable {literals : Literals} {operator : ComparisonOperator} {symbol : String}
  {target other : Attribute} {arguments : List String} {predicate : Predicate}

/-! ## Moving a condition -/

theorem nullTest_withPath (type_eq : other.type = target.type) (op : CompareOp)
    (argument : String) :
    nullTest op symbol other argument =
      (nullTest op symbol target argument).map (Predicate.withPath other.path) := by
  unfold nullTest
  rw [type_eq]
  cases op.negatedEquality? <;> rfl

theorem valueTest_withPath (type_eq : other.type = target.type) (op : CompareOp)
    (argument : String) :
    literals.valueTest op symbol other argument =
      (literals.valueTest op symbol target argument).map (Predicate.withPath other.path) := by
  unfold valueTest
  rw [type_eq]
  cases literals.coerce argument target.type with
  | error error => rfl
  | ok value =>
      dsimp only [bind, Except.bind]
      split <;> rfl

theorem comparisonTest_withPath (type_eq : other.type = target.type) (op : CompareOp)
    (argument : String) :
    literals.comparisonTest op symbol other argument =
      (literals.comparisonTest op symbol target argument).map
        (Predicate.withPath other.path) := by
  unfold comparisonTest
  rw [type_eq]
  split
  · exact nullTest_withPath type_eq op argument
  · split
    · rfl
    · exact valueTest_withPath type_eq op argument

/-- On attributes of one type an operator asks the same, or fails with the same error. -/
theorem condition_withPath (type_eq : other.type = target.type) (arguments : List String) :
    literals.condition operator symbol other arguments =
      (literals.condition operator symbol target arguments).map
        (Predicate.withPath other.path) := by
  unfold condition
  rw [type_eq]
  split
  · rename_i argument arguments _
    cases literals.coerceAll (argument :: arguments) target.type <;> rfl
  · exact comparisonTest_withPath type_eq _ _
  · rfl

/-- Whether there is a condition depends on the type of an attribute alone. -/
theorem isOk_condition (type_eq : other.type = target.type) (arguments : List String) :
    (literals.condition operator symbol other arguments).isOk =
      (literals.condition operator symbol target arguments).isOk := by
  rw [condition_withPath type_eq]
  cases literals.condition operator symbol target arguments <;> rfl

/-- A comparison with an argument that is neither the null token nor a pattern is one with its
value. -/
theorem condition_eq_valueTest {op : CompareOp} {argument : String}
    (meaning : operator.meaning = .comparison op) (given : argument ≠ literals.nullToken)
    (plain : target.type.isTextual = true → '*' ∉ argument.toList) :
    literals.condition operator symbol target [argument] =
      literals.valueTest op symbol target argument := by
  have unmatched : (target.type.isTextual && argument.toList.contains '*') = false := by
    rw [Bool.and_eq_false_imp]
    intro textual
    rw [Bool.eq_false_iff, ne_eq, List.contains_iff_mem]
    exact plain textual
  simp only [condition, meaning, comparisonTest, if_neg given, unmatched]
  cases op.negatedEquality? <;> rfl

/-! ## The checks behind a condition -/

/-- The conditions that an operator and its arguments give on an attribute. -/
inductive Form (literals : Literals) (operator : ComparisonOperator) (target : Attribute) :
    List String → Predicate → Prop
  | isIn {negated : Bool} {arguments : List String} {values : List Value}
      (meaning : operator.meaning = .membership negated) (some : arguments ≠ [])
      (values_eq : literals.coerceAll arguments target.type = .ok values) :
      Form literals operator target arguments (.isIn target.path values negated)
  | isNull {op : CompareOp} {negated : Bool} (meaning : operator.meaning = .comparison op)
      (equality : op.negatedEquality? = .some negated) :
      Form literals operator target [literals.nullToken] (.isNull target.path negated)
  | like {op : CompareOp} {negated : Bool} {argument : String}
      (meaning : operator.meaning = .comparison op)
      (equality : op.negatedEquality? = .some negated) (given : argument ≠ literals.nullToken)
      (textual : target.type.isTextual = true) (starred : '*' ∈ argument.toList) :
      Form literals operator target [argument] (.like target.path argument negated)
  | compare {op : CompareOp} {argument : String} {value : Value}
      (meaning : operator.meaning = .comparison op) (given : argument ≠ literals.nullToken)
      (plain : ∀ negated, op.negatedEquality? = .some negated → target.type.isTextual = true →
        '*' ∉ argument.toList)
      (value_eq : literals.parser argument target.type = .ok value)
      (ordered : op.requiresOrdering = true → target.type.isOrderable = true) :
      Form literals operator target [argument] (.compare target.path op value)

theorem eq_of_nullTest_eq_ok {op : CompareOp} {argument : String}
    (h : nullTest op symbol target argument = .ok predicate) :
    ∃ negated, op.negatedEquality? = some negated ∧ predicate = .isNull target.path negated := by
  unfold nullTest at h
  split at h
  · rename_i negated equality
    cases h
    exact ⟨negated, equality, rfl⟩
  · cases h

theorem eq_of_valueTest_eq_ok {op : CompareOp} {argument : String}
    (h : literals.valueTest op symbol target argument = .ok predicate) :
    ∃ value, literals.coerce argument target.type = .ok value ∧
      (op.requiresOrdering = true → target.type.isOrderable = true) ∧
      predicate = .compare target.path op value := by
  unfold valueTest at h
  cases value_eq : literals.coerce argument target.type with
  | error error =>
      rw [value_eq] at h
      cases h
  | ok value =>
      rw [value_eq] at h
      dsimp only [bind, Except.bind] at h
      split at h
      · cases h
      · rename_i unrefused
        cases h
        refine ⟨value, rfl, fun ordering => ?_, rfl⟩
        simpa [ordering] using unrefused

/-- A condition has one of the forms. -/
theorem form_of_condition_eq_ok
    (h : literals.condition operator symbol target arguments = .ok predicate) :
    literals.Form operator target arguments predicate := by
  unfold condition at h
  split at h
  · rename_i negated argument arguments meaning
    cases values_eq : literals.coerceAll (argument :: arguments) target.type with
    | error error =>
        rw [values_eq] at h
        cases h
    | ok values =>
        rw [values_eq] at h
        cases h
        exact .isIn meaning (by simp) values_eq
  · rename_i op argument meaning
    unfold comparisonTest at h
    split at h
    · rename_i isToken
      subst isToken
      rcases eq_of_nullTest_eq_ok h with ⟨negated, equality, rfl⟩
      exact .isNull meaning equality
    · rename_i given
      split at h
      · rename_i negated equality pattern
        cases h
        rw [Bool.and_eq_true, List.contains_iff_mem] at pattern
        exact .like meaning equality given pattern.1 pattern.2
      · rename_i noPattern
        rcases eq_of_valueTest_eq_ok h with ⟨value, value_eq, ordered, rfl⟩
        rw [coerce, if_neg given] at value_eq
        refine .compare meaning given ?_ value_eq ordered
        intro negated equality textual starred
        refine noPattern negated equality ?_
        rw [textual, List.contains_iff_mem.mpr starred, Bool.and_self]
  · cases h

end Literals

end FilterQuery
