import FilterQuery.Proofs.Compile.Forms
import FilterQuery.Proofs.Store.Evaluation

/-!
# The meaning of conditions

What an operator asks of a value does not depend on where the value is read.  The condition
that a comparison is compiled to reads the path of its attribute and asks just that.
-/

namespace FilterQuery

/-- Null passes no comparison. -/
theorem Value.not_holds_null (op : CompareOp) (literal : Value) :
    op.holds .null literal = false := by
  cases op <;> cases literal <;> rfl

/-- Null is among no values, and is not surely absent from them either. -/
theorem Value.not_among_null (values : List Value) (negated : Bool) :
    Value.null.among values negated = false := by
  have absent : values.any Value.null.agrees = false := by
    rw [List.any_eq_false]
    intro value _
    cases value <;> exact Bool.false_ne_true
  rw [among, absent]
  cases negated <;> rfl

namespace Literals

variable {literals : Literals} {operator : ComparisonOperator} {symbol : String}
  {target : Attribute} {predicate : Predicate}

/-- Whether a value passes a comparison with one argument, as a value of a type. -/
def passes (literals : Literals) (op : CompareOp) (type : AttributeType) (argument : String)
    (value : Value) : Bool :=
  if argument = literals.nullToken then value.isNull != (op = .ne)
  else if !op.requiresOrdering && type.isTextual && argument.toList.contains '*' then
    value.like argument (op = .ne)
  else
    match literals.coerce argument type with
    | .ok literal => op.holds value literal
    | .error _ => false

/-- Whether a value is what an operator with arguments asks for, as a value of a type. -/
def accepts (literals : Literals) (operator : ComparisonOperator) (type : AttributeType)
    (arguments : List String) (value : Value) : Bool :=
  match operator.meaning, arguments with
  | .membership negated, arguments =>
      match literals.coerceAll arguments type with
      | .ok values => value.among values negated
      | .error _ => false
  | .comparison op, [argument] => literals.passes op type argument value
  | .comparison _, _ => false

theorem negatedEquality?_eq_some_iff {op : CompareOp} {negated : Bool} :
    op.negatedEquality? = some negated ↔
      op.requiresOrdering = false ∧ negated = decide (op = .ne) := by
  cases op <;> cases negated <;> simp [CompareOp.negatedEquality?, CompareOp.requiresOrdering]

/-- A condition reads the path of its attribute, and asks of the value there what its operator
asks for. -/
theorem Form.test?_eq {arguments : List String}
    (form : literals.Form operator target arguments predicate) :
    predicate.test? = some (target.path, literals.accepts operator target.type arguments) := by
  unfold accepts
  cases form with
  | isIn meaning some values_eq => simp [meaning, values_eq, Predicate.test?]
  | isNull meaning equality =>
      rcases negatedEquality?_eq_some_iff.mp equality with ⟨-, rfl⟩
      simp [meaning, passes, Predicate.test?]
  | like meaning equality given textual starred =>
      rcases negatedEquality?_eq_some_iff.mp equality with ⟨unordered, rfl⟩
      simp [meaning, passes, given, unordered, textual, starred, Predicate.test?]
  | @compare op argument value meaning given plain value_eq ordered =>
      have unmatched : (!op.requiresOrdering && target.type.isTextual &&
          argument.toList.contains '*') = false := by
        rw [Bool.eq_false_iff]
        intro matched
        simp only [Bool.and_eq_true, Bool.not_eq_true', List.contains_iff_mem] at matched
        rcases matched with ⟨⟨unordered, textual⟩, starred⟩
        exact plain _ (negatedEquality?_eq_some_iff.mpr ⟨unordered, rfl⟩) textual starred
      have coerced : literals.coerce argument target.type = .ok value := by
        rw [coerce, if_neg given, value_eq]
      simp only [meaning, passes, given, unmatched, coerced, Predicate.test?, if_false,
        Bool.false_eq_true]

theorem test?_of_condition_eq_ok {arguments : List String}
    (h : literals.condition operator symbol target arguments = .ok predicate) :
    predicate.test? = some (target.path, literals.accepts operator target.type arguments) :=
  (form_of_condition_eq_ok h).test?_eq

end Literals

end FilterQuery
