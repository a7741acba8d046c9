import FilterQuery.Filter

/-!
# The truth of filters

A filter holds or not once it is known which of its comparisons do: a group holds if all its
children hold, or if one of them does.
-/

namespace FilterQuery.Filter

mutual
/-- Whether a filter holds, given which of its comparisons do; a group of an operator that is
not known, or an extension, does not. -/
def evaluate (truth : Comparison → Bool) : Filter → Bool
  | .comparison node => truth node
  | .logical symbol children =>
      match LogicalOperator.parse? symbol with
      | some .and => evaluateAll truth children
      | some .or => evaluateAny truth children
      | none => false
  | .extension _ => false

def evaluateAll (truth : Comparison → Bool) : List Filter → Bool
  | [] => true
  | child :: children => child.evaluate truth && evaluateAll truth children

def evaluateAny (truth : Comparison → Bool) : List Filter → Bool
  | [] => false
  | child :: children => child.evaluate truth || evaluateAny truth children
end

theorem evaluateAll_eq_all (truth : Comparison → Bool) (children : List Filter) :
    evaluateAll truth children = children.all (evaluate truth) := by
  induction children with
  | nil => rfl
  | cons child children ih => rw [evaluateAll, ih, List.all_cons]

theorem evaluateAny_eq_any (truth : Comparison → Bool) (children : List Filter) :
    evaluateAny truth children = children.any (evaluate truth) := by
  induction children with
  | nil => rfl
  | cons child children ih => rw [evaluateAny, ih, List.any_cons]

/-- Whether the children of a group make it hold. -/
def decides (truth : Comparison → Bool) (children : List Filter) : LogicalOperator → Bool
  | .and => children.all (evaluate truth)
  | .or => children.any (evaluate truth)

theorem evaluate_logical {symbol : String} {operator : LogicalOperator}
    (meaning : LogicalOperator.parse? symbol = some operator) (truth : Comparison → Bool)
    (children : List Filter) :
    (logical symbol children).evaluate truth = decides truth children operator := by
  rw [evaluate, meaning]
  cases operator with
  | and => exact evaluateAll_eq_all truth children
  | or => exact evaluateAny_eq_any truth children

mutual
/-- Only its comparisons decide whether a filter holds. -/
theorem evaluate_congr {truth other : Comparison → Bool} : (filter : Filter) →
    (∀ node ∈ filter.comparisons, truth node = other node) →
      filter.evaluate truth = filter.evaluate other
  | .comparison node, agree => by
      rw [evaluate, evaluate]
      exact agree node (by simp [comparisons])
  | .logical symbol children, agree => by
      rw [evaluate, evaluate]
      rcases evaluateEach_congr children agree with ⟨all_eq, any_eq⟩
      rw [all_eq, any_eq]
  | .extension kind, _ => by rw [evaluate, evaluate]

theorem evaluateEach_congr {truth other : Comparison → Bool} : (children : List Filter) →
    (∀ node ∈ comparisonsOfChildren children, truth node = other node) →
      evaluateAll truth children = evaluateAll other children ∧
        evaluateAny truth children = evaluateAny other children
  | [], _ => ⟨rfl, rfl⟩
  | child :: children, agree => by
      rw [comparisonsOfChildren] at agree
      rcases List.forall_mem_append.mp agree with ⟨first, others⟩
      rcases evaluateEach_congr children others with ⟨all_eq, any_eq⟩
      rw [evaluateAll, evaluateAll, evaluateAny, evaluateAny, evaluate_congr child first, all_eq,
        any_eq]
      exact ⟨rfl, rfl⟩
end

end FilterQuery.Filter
