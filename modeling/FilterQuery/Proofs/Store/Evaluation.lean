import FilterQuery.Proofs.Compile.Trees
import FilterQuery.Proofs.Filter.Truth
import FilterQuery.Proofs.Store.Loops
import Mathlib.Data.List.Forall2

/-!
# Evaluating predicates

The evaluation of a group stops at the first child that decides it.  Where every leaf can be
read this makes no difference: the group holds exactly if all its children do, or some child
does.  A predicate that mirrors a filter has the filter's comparisons as its leaves, in
order, and holds as the filter does once its comparisons are decided.
-/

namespace FilterQuery

/-! ## Leaves -/

namespace Predicate

mutual
/-- The conditions that are not groups, from left to right. -/
def leaves : Predicate → List Predicate
  | .and children => leavesOfChildren children
  | .or children => leavesOfChildren children
  | leaf => [leaf]

def leavesOfChildren : List Predicate → List Predicate
  | [] => []
  | child :: children => child.leaves ++ leavesOfChildren children
end

mutual
/-- Whether a predicate holds, given which of its leaves do. -/
def evaluate (test : Predicate → Bool) : Predicate → Bool
  | .and children => evaluateAll test children
  | .or children => evaluateAny test children
  | leaf => test leaf

def evaluateAll (test : Predicate → Bool) : List Predicate → Bool
  | [] => true
  | child :: children => child.evaluate test && evaluateAll test children

def evaluateAny (test : Predicate → Bool) : List Predicate → Bool
  | [] => false
  | child :: children => child.evaluate test || evaluateAny test children
end

/-- What a leaf asks of the value at its path. -/
def test? : Predicate → Option (AttributePath × (Value → Bool))
  | .compare path op value => some (path, fun actual => op.holds actual value)
  | .like path pattern negated => some (path, fun actual => actual.like pattern negated)
  | .isNull path negated => some (path, fun actual => actual.isNull != negated)
  | .isIn path values negated => some (path, fun actual => actual.among values negated)
  | .and _ | .or _ => none

variable {predicate : Predicate} {path : AttributePath} {test : Value → Bool}

theorem leaves_of_test? (h : predicate.test? = some (path, test)) :
    predicate.leaves = [predicate] := by
  cases predicate with
  | and children => cases h
  | or children => cases h
  | _ => rfl

theorem evaluate_of_test? (h : predicate.test? = some (path, test)) (leafTest : Predicate → Bool) :
    predicate.evaluate leafTest = leafTest predicate := by
  cases predicate with
  | and children => cases h
  | or children => cases h
  | _ => rfl

end Predicate

/-- A leaf holds of a tuple if the value at its path passes. -/
theorem Store.holds_of_test? {store : Store} {tuple : Tuple} {predicate : Predicate}
    {path : AttributePath} {test : Value → Bool} (h : predicate.test? = some (path, test)) :
    store.holds tuple predicate = (store.read path tuple).map test := by
  cases predicate with
  | and children => cases h
  | or children => cases h
  | _ =>
      cases h
      rw [Store.holds]
      cases store.read _ tuple <;> rfl

namespace Store

variable {store : Store} {tuple : Tuple} {test : Predicate → Bool}

mutual
/-- Where every leaf can be read, a predicate holds as its leaves decide. -/
theorem holds_eq_evaluate : (predicate : Predicate) →
    (∀ leaf ∈ predicate.leaves, store.holds tuple leaf = .ok (test leaf)) →
      store.holds tuple predicate = .ok (predicate.evaluate test)
  | .and children, reads => by
      rw [holds, Predicate.evaluate]
      exact holdAll_eq_evaluateAll children reads
  | .or children, reads => by
      rw [holds, Predicate.evaluate]
      exact holdAny_eq_evaluateAny children reads
  | .compare path op value, reads => reads _ (List.mem_singleton_self _)
  | .like path pattern negated, reads => reads _ (List.mem_singleton_self _)
  | .isNull path negated, reads => reads _ (List.mem_singleton_self _)
  | .isIn path values negated, reads => reads _ (List.mem_singleton_self _)

theorem holdAll_eq_evaluateAll : (children : List Predicate) →
    (∀ leaf ∈ Predicate.leavesOfChildren children, store.holds tuple leaf = .ok (test leaf)) →
      store.holdAll tuple children = .ok (Predicate.evaluateAll test children)
  | [], _ => by rw [holdAll, Predicate.evaluateAll]
  | child :: children, reads => by
      rw [Predicate.leavesOfChildren] at reads
      rcases List.forall_mem_append.mp reads with ⟨first, others⟩
      rw [holdAll, holds_eq_evaluate child first, Predicate.evaluateAll]
      cases child.evaluate test with
      | false => rfl
      | true => exact holdAll_eq_evaluateAll children others

theorem holdAny_eq_evaluateAny : (children : List Predicate) →
    (∀ leaf ∈ Predicate.leavesOfChildren children, store.holds tuple leaf = .ok (test leaf)) →
      store.holdAny tuple children = .ok (Predicate.evaluateAny test children)
  | [], _ => by rw [holdAny, Predicate.evaluateAny]
  | child :: children, reads => by
      rw [Predicate.leavesOfChildren] at reads
      rcases List.forall_mem_append.mp reads with ⟨first, others⟩
      rw [holdAny, holds_eq_evaluate child first, Predicate.evaluateAny]
      cases child.evaluate test with
      | true => rfl
      | false => exact holdAny_eq_evaluateAny children others
end

/-- The tuples that pass a filter which can be decided for each of them. -/
theorem matchingRoots_eq_filter {filter : Option Predicate} {passed : Tuple → Bool}
    {tuples : List Tuple}
    (passes : ∀ tuple ∈ tuples, store.passes filter tuple = .ok (passed tuple)) :
    store.matchingRoots filter tuples = .ok ((tuples.filter passed).map (·.root)) := by
  induction tuples with
  | nil => rfl
  | cons tuple tuples ih =>
      rcases List.forall_mem_cons.mp passes with ⟨first, others⟩
      rw [matchingRoots, first, ih others, List.filter_cons]
      cases passed tuple <;> rfl

/-- A filter has been decided for every tuple where the matching roots are found. -/
theorem matchingRoots_eq_ok_iff {filter : Option Predicate} {tuples : List Tuple}
    {rows : List RowRef} :
    store.matchingRoots filter tuples = .ok rows ↔
      ∃ passed : Tuple → Bool,
        (∀ tuple ∈ tuples, store.passes filter tuple = .ok (passed tuple)) ∧
          (tuples.filter passed).map (·.root) = rows := by
  constructor
  · intro found
    let passed (tuple : Tuple) := (store.passes filter tuple).toOption.getD false
    have passes : ∀ tuple ∈ tuples, store.passes filter tuple = .ok (passed tuple) := by
      induction tuples generalizing rows with
      | nil => exact fun _ member => nomatch member
      | cons tuple tuples ih =>
          rcases bind_eq_ok_iff.mp found with ⟨decided, decided_eq, found⟩
          rcases bind_eq_ok_iff.mp found with ⟨others, others_eq, -⟩
          refine List.forall_mem_cons.mpr ⟨?_, ih others_eq⟩
          simp only [passed, decided_eq]
          rfl
    exact ⟨passed, passes, Except.ok.inj ((matchingRoots_eq_filter passes).symm.trans found)⟩
  · rintro ⟨passed, passes, rfl⟩
    exact matchingRoots_eq_filter passes

/-- The answer to a query whose filter can be decided for each of its tuples. -/
theorem select_eq {query : Query} {passed : Tuple → Bool} {tuples : List Tuple}
    (tuples_eq : store.expand query = .ok tuples)
    (passes : ∀ tuple ∈ tuples, store.passes query.filter tuple = .ok (passed tuple)) :
    store.select query =
      .ok (if query.distinct then withoutRepeats ((tuples.filter passed).map (·.root))
        else (tuples.filter passed).map (·.root)) := by
  rw [select, tuples_eq]
  simp only [bind, Except.bind, matchingRoots_eq_filter passes]

/-- An answer is found in the tuples of the query, each of which the filter has decided. -/
theorem select_eq_ok_iff {query : Query} {rows : List RowRef} :
    store.select query = .ok rows ↔
      ∃ tuples, ∃ passed : Tuple → Bool, store.expand query = .ok tuples ∧
        (∀ tuple ∈ tuples, store.passes query.filter tuple = .ok (passed tuple)) ∧
          (if query.distinct then withoutRepeats ((tuples.filter passed).map (·.root))
            else (tuples.filter passed).map (·.root)) = rows := by
  constructor
  · intro selected
    rcases bind_eq_ok_iff.mp selected with ⟨tuples, tuples_eq, selected⟩
    rcases bind_eq_ok_iff.mp selected with ⟨roots, roots_eq, rows_eq⟩
    rcases matchingRoots_eq_ok_iff.mp roots_eq with ⟨passed, passes, rfl⟩
    exact ⟨tuples, passed, tuples_eq, passes, Except.ok.inj rows_eq⟩
  · rintro ⟨tuples, passed, tuples_eq, passes, rfl⟩
    exact select_eq tuples_eq passes

end Store

/-! ## Filters -/

variable {related : Comparison → Predicate → Prop} {test : Predicate → Bool}
  {truth : Comparison → Bool}

mutual
/-- A predicate that mirrors a filter holds if the filter does. -/
theorem Filter.Mirrors.evaluate_eq : {filter : Filter} → {predicate : Predicate} →
    filter.Mirrors related predicate →
      (∀ node predicate, related node predicate → predicate.evaluate test = truth node) →
        predicate.evaluate test = filter.evaluate truth
  | _, _, .comparison leaf, agree => by
      rw [Filter.evaluate]
      exact agree _ _ leaf
  | .logical symbol children, _, .logical meaning each, agree => by
      rw [Filter.evaluate, meaning]
      rcases each.evaluate_eq agree with ⟨all_eq, any_eq⟩
      rename_i operator _
      cases operator with
      | and => exact all_eq
      | or => exact any_eq

theorem Filter.MirrorsEach.evaluate_eq : {children : List Filter} → {predicates : List Predicate} →
    MirrorsEach related children predicates →
      (∀ node predicate, related node predicate → predicate.evaluate test = truth node) →
        Predicate.evaluateAll test predicates = evaluateAll truth children ∧
          Predicate.evaluateAny test predicates = evaluateAny truth children
  | _, _, .nil, _ => ⟨rfl, rfl⟩
  | _, _, .cons first others, agree => by
      rcases others.evaluate_eq agree with ⟨all_eq, any_eq⟩
      rw [Predicate.evaluateAll, Predicate.evaluateAny, evaluateAll, evaluateAny,
        first.evaluate_eq agree, all_eq, any_eq]
      exact ⟨rfl, rfl⟩
end

mutual
/-- The leaves of a predicate that mirrors a filter are those of its comparisons, in order. -/
theorem Filter.Mirrors.leaves : {filter : Filter} → {predicate : Predicate} →
    filter.Mirrors related predicate →
      (∀ node predicate, related node predicate → predicate.leaves = [predicate]) →
        List.Forall₂ related filter.comparisons predicate.leaves
  | _, _, .comparison leaf, single => by
      rw [comparisons, single _ _ leaf]
      exact .cons leaf .nil
  | .logical symbol children, _, .logical meaning each, single => by
      rename_i operator _
      cases operator with
      | and => exact each.leaves single
      | or => exact each.leaves single

theorem Filter.MirrorsEach.leaves : {children : List Filter} → {predicates : List Predicate} →
    MirrorsEach related children predicates →
      (∀ node predicate, related node predicate → predicate.leaves = [predicate]) →
        List.Forall₂ related (comparisonsOfChildren children)
          (Predicate.leavesOfChildren predicates)
  | _, _, .nil, _ => .nil
  | _, _, .cons first others, single => by
      rw [comparisonsOfChildren, Predicate.leavesOfChildren]
      exact List.rel_append (first.leaves single) (others.leaves single)
end

/-- Each leaf of a predicate that mirrors a filter belongs to one of its comparisons. -/
theorem Filter.Mirrors.exists_of_mem_leaves {filter : Filter} {predicate leaf : Predicate}
    (mirrors : filter.Mirrors related predicate)
    (single : ∀ node predicate, related node predicate → predicate.leaves = [predicate])
    (member : leaf ∈ predicate.leaves) : ∃ node ∈ filter.comparisons, related node leaf := by
  have each := mirrors.leaves single
  rcases List.getElem_of_mem member with ⟨i, inside, rfl⟩
  have inside' : i < filter.comparisons.length := each.length_eq ▸ inside
  exact ⟨filter.comparisons[i], List.getElem_mem inside', each.get inside' inside⟩

/-- A predicate that mirrors a filter holds of a tuple if the filter does, once each leaf is decided
by its comparison. -/
theorem Filter.Mirrors.holds_eq_evaluate {store : Store} {tuple : Tuple} {filter : Filter}
    {predicate : Predicate} (mirrors : filter.Mirrors related predicate)
    (decides : ∀ node leaf, related node leaf →
      (∃ path test, leaf.test? = some (path, test)) ∧
        store.holds tuple leaf = .ok (truth node)) :
    store.holds tuple predicate = .ok (filter.evaluate truth) := by
  let decided (leaf : Predicate) := (store.holds tuple leaf).toOption.getD false
  have decided_eq (node : Comparison) (leaf : Predicate) (leaf_related : related node leaf) :
      decided leaf = truth node := by
    simp only [decided, (decides node leaf leaf_related).2]
    rfl
  have single (node : Comparison) (leaf : Predicate) (leaf_related : related node leaf) :
      leaf.leaves = [leaf] := by
    rcases (decides node leaf leaf_related).1 with ⟨_, _, test_eq⟩
    exact Predicate.leaves_of_test? test_eq
  have reads : ∀ leaf ∈ predicate.leaves, store.holds tuple leaf = .ok (decided leaf) := by
    intro leaf member
    rcases mirrors.exists_of_mem_leaves single member with ⟨node, -, leaf_related⟩
    rw [decided_eq node leaf leaf_related]
    exact (decides node leaf leaf_related).2
  rw [Store.holds_eq_evaluate predicate reads]
  apply congrArg Except.ok
  apply mirrors.evaluate_eq
  intro node leaf leaf_related
  rcases (decides node leaf leaf_related).1 with ⟨_, _, test_eq⟩
  rw [Predicate.evaluate_of_test? test_eq, decided_eq node leaf leaf_related]

end FilterQuery
