import FilterQuery.Filter.Builder
import FilterQuery.Proofs.Filter.Truth

/-!
# What a builder builds

Each call adds at most one node to a builder: its comparison, or what the calls of its group
have built.  A group without comparisons adds nothing, and one with a single member adds that
member.  So of the groups of the calls those with several members are left, in their order, and the
tree holds where the calls do.
-/

namespace FilterQuery

/-! ## Groups -/

/-- A group of comparisons: its operator, and the comparisons of each of its members. -/
structure Grouping where
  operator : String
  members : List (List Comparison)
  deriving DecidableEq

/-- Whether a group has several members. -/
def Grouping.IsProper (grouping : Grouping) : Prop :=
  2 ≤ grouping.members.length

instance (grouping : Grouping) : Decidable grouping.IsProper :=
  inferInstanceAs (Decidable (2 ≤ grouping.members.length))

namespace Filter

mutual
/-- The groups of a tree, a group in front of those inside it. -/
def groupings : Filter → List Grouping
  | .comparison _ => []
  | .logical operator children =>
      ⟨operator, children.map comparisons⟩ :: groupingsOfChildren children
  | .extension _ => []

def groupingsOfChildren : List Filter → List Grouping
  | [] => []
  | child :: children => child.groupings ++ groupingsOfChildren children
end

end Filter

namespace BuilderCall

mutual
/-- The comparisons that a call adds, at whatever depth, in the order of the calls. -/
def comparisons : BuilderCall → List Comparison
  | .compare operator selector arguments => [⟨selector, operator.symbol, arguments⟩]
  | .testNull selector negated => [⟨selector, if negated then "!=" else "==", ["null"]⟩]
  | .custom selector operator arguments => [⟨selector, operator, arguments⟩]
  | .group _ calls => comparisonsOfAll calls

def comparisonsOfAll : List BuilderCall → List Comparison
  | [] => []
  | first :: rest => first.comparisons ++ comparisonsOfAll rest
end

/-- The comparisons of each of some calls that adds any. -/
def members (calls : List BuilderCall) : List (List Comparison) :=
  (calls.map comparisons).filter (· ≠ [])

mutual
/-- The groups of a call, a group in front of those inside it. -/
def groupings : BuilderCall → List Grouping
  | .group mode calls => ⟨mode.symbol, members calls⟩ :: groupingsOfAll calls
  | .compare _ _ _ => []
  | .testNull _ _ => []
  | .custom _ _ _ => []

def groupingsOfAll : List BuilderCall → List Grouping
  | [] => []
  | first :: rest => first.groupings ++ groupingsOfAll rest
end

mutual
/-- Whether a call holds, given which comparisons do: a group holds if all its members hold, or if
one of them does, where those without comparisons do not count. -/
def evaluate (truth : Comparison → Bool) : BuilderCall → Bool
  | .group .and calls => evaluateAll truth calls
  | .group .or calls => evaluateAny truth calls
  | .compare operator selector arguments => truth ⟨selector, operator.symbol, arguments⟩
  | .testNull selector negated => truth ⟨selector, if negated then "!=" else "==", ["null"]⟩
  | .custom selector operator arguments => truth ⟨selector, operator, arguments⟩

def evaluateAll (truth : Comparison → Bool) : List BuilderCall → Bool
  | [] => true
  | first :: rest =>
      if first.comparisons = [] then evaluateAll truth rest
      else first.evaluate truth && evaluateAll truth rest

def evaluateAny (truth : Comparison → Bool) : List BuilderCall → Bool
  | [] => false
  | first :: rest =>
      if first.comparisons = [] then evaluateAny truth rest
      else first.evaluate truth || evaluateAny truth rest
end

end BuilderCall

/-! ## Nodes -/

namespace FilterBuilder

/-- The node that a call adds to a builder. -/
def node? : BuilderCall → Option Filter
  | .compare operator selector arguments =>
      some (.comparison ⟨selector, operator.symbol, arguments⟩)
  | .testNull selector negated =>
      some (.comparison ⟨selector, if negated then "!=" else "==", ["null"]⟩)
  | .custom selector operator arguments => some (.comparison ⟨selector, operator, arguments⟩)
  | .group mode calls => ((new mode).callAll calls).finish

/-- A call adds its node behind the others, if it has one. -/
theorem call_eq (builder : FilterBuilder) (step : BuilderCall) :
    builder.call step = { builder with nodes := builder.nodes ++ (node? step).toList } := by
  cases step with
  | compare operator selector arguments => rw [call]; rfl
  | testNull selector negated => rw [call]; cases negated <;> rfl
  | custom selector operator arguments => rw [call]; rfl
  | group mode calls =>
      rw [call, addGroup, node?]
      cases ((new mode).callAll calls).finish with
      | none => simp
      | some node => rfl

/-- Calls add their nodes in order. -/
theorem callAll_eq (builder : FilterBuilder) (calls : List BuilderCall) :
    builder.callAll calls = { builder with nodes := builder.nodes ++ calls.filterMap node? } := by
  induction calls generalizing builder with
  | nil => simp [callAll]
  | cons first rest ih =>
      rw [callAll, ih, call_eq]
      cases node_eq : node? first <;> simp [node_eq]

theorem nodes_callAll (mode : LogicalOperator) (calls : List BuilderCall) :
    (new mode).callAll calls = ⟨mode, calls.filterMap node?⟩ := by
  rw [callAll_eq]
  rfl

/-! ## Trees that stand for calls -/

/-- A tree holds where a call does, and has its comparisons and its proper groups. -/
structure Stands (step : BuilderCall) (tree : Filter) : Prop where
  comparisons_ne : step.comparisons ≠ []
  comparisons_eq : tree.comparisons = step.comparisons
  groupings_eq : tree.groupings = step.groupings.filter Grouping.IsProper
  evaluate_eq : ∀ truth, tree.evaluate truth = step.evaluate truth

/-- Trees hold where some calls do, all of them or any of them, and have their comparisons and their
proper groups. -/
structure StandTogether (calls : List BuilderCall) (trees : List Filter) : Prop where
  comparisons_eq : Filter.comparisonsOfChildren trees = BuilderCall.comparisonsOfAll calls
  members_eq : trees.map Filter.comparisons = BuilderCall.members calls
  groupings_eq : Filter.groupingsOfChildren trees =
    (BuilderCall.groupingsOfAll calls).filter Grouping.IsProper
  all_eq : ∀ truth, Filter.evaluateAll truth trees = BuilderCall.evaluateAll truth calls
  any_eq : ∀ truth, Filter.evaluateAny truth trees = BuilderCall.evaluateAny truth calls

/-- The node of a call stands for it; a call without a node adds no comparison. -/
def StandsOrNone (step : BuilderCall) : Option Filter → Prop
  | some tree => Stands step tree
  | none => step.comparisons = [] ∧ step.groupings.filter Grouping.IsProper = []

variable {step : BuilderCall} {calls : List BuilderCall} {mode : LogicalOperator}

theorem StandTogether.nil : StandTogether [] [] where
  comparisons_eq := rfl
  members_eq := rfl
  groupings_eq := rfl
  all_eq _ := rfl
  any_eq _ := rfl

/-- A call without comparisons can be left out. -/
theorem StandTogether.skip {trees : List Filter} (together : StandTogether calls trees)
    (empty : step.comparisons = [])
    (noGroups : step.groupings.filter Grouping.IsProper = []) :
    StandTogether (step :: calls) trees where
  comparisons_eq := by
    rw [BuilderCall.comparisonsOfAll, empty, together.comparisons_eq, List.nil_append]
  members_eq := by
    rw [together.members_eq]
    simp [BuilderCall.members, empty]
  groupings_eq := by
    rw [BuilderCall.groupingsOfAll, List.filter_append, noGroups, together.groupings_eq,
      List.nil_append]
  all_eq truth := by rw [BuilderCall.evaluateAll, if_pos empty, together.all_eq]
  any_eq truth := by rw [BuilderCall.evaluateAny, if_pos empty, together.any_eq]

theorem StandTogether.cons {tree : Filter} {trees : List Filter} (stands : Stands step tree)
    (together : StandTogether calls trees) : StandTogether (step :: calls) (tree :: trees) where
  comparisons_eq := by
    rw [Filter.comparisonsOfChildren, BuilderCall.comparisonsOfAll, stands.comparisons_eq,
      together.comparisons_eq]
  members_eq := by
    rw [List.map_cons, together.members_eq, stands.comparisons_eq]
    simp [BuilderCall.members, stands.comparisons_ne]
  groupings_eq := by
    rw [Filter.groupingsOfChildren, BuilderCall.groupingsOfAll, List.filter_append,
      stands.groupings_eq, together.groupings_eq]
  all_eq truth := by
    rw [BuilderCall.evaluateAll, if_neg stands.comparisons_ne, Filter.evaluateAll,
      stands.evaluate_eq, together.all_eq]
  any_eq truth := by
    rw [BuilderCall.evaluateAny, if_neg stands.comparisons_ne, Filter.evaluateAny,
      stands.evaluate_eq, together.any_eq]

/-! ## Finishing -/

theorem StandTogether.comparisons_ne {tree : Filter} {trees : List Filter}
    (together : StandTogether calls (tree :: trees)) :
    BuilderCall.comparisonsOfAll calls ≠ [] := by
  have member : tree.comparisons ∈ BuilderCall.members calls := by
    rw [← together.members_eq]
    exact List.mem_cons_self
  have tree_ne : tree.comparisons ≠ [] := of_decide_eq_true (List.mem_filter.mp member).2
  rw [← together.comparisons_eq, Filter.comparisonsOfChildren]
  exact List.append_ne_nil_of_left_ne_nil tree_ne _

/-- A group is left out of the proper ones if fewer than two trees stand for its calls. -/
theorem StandTogether.groupings_of_lt {trees : List Filter} (together : StandTogether calls trees)
    (few : trees.length < 2) :
    (BuilderCall.group mode calls).groupings.filter Grouping.IsProper =
      Filter.groupingsOfChildren trees := by
  rw [BuilderCall.groupings, ← together.members_eq, together.groupings_eq, List.filter_cons_of_neg]
  simpa [Grouping.IsProper] using few

/-- Without trees there are no comparisons. -/
theorem StandTogether.finish_nil (together : StandTogether calls []) :
    StandsOrNone (.group mode calls) none :=
  ⟨together.comparisons_eq.symm, together.groupings_of_lt Nat.two_pos⟩

/-- A single tree stands for its group. -/
theorem StandTogether.finish_singleton {tree : Filter} (together : StandTogether calls [tree]) :
    Stands (.group mode calls) tree where
  comparisons_ne := together.comparisons_ne
  comparisons_eq := by
    rw [BuilderCall.comparisons, ← together.comparisons_eq]
    simp [Filter.comparisonsOfChildren]
  groupings_eq := by
    rw [together.groupings_of_lt Nat.one_lt_two]
    simp [Filter.groupingsOfChildren]
  evaluate_eq truth := by
    cases mode with
    | and =>
        rw [BuilderCall.evaluate, ← together.all_eq]
        simp [Filter.evaluateAll]
    | or =>
        rw [BuilderCall.evaluate, ← together.any_eq]
        simp [Filter.evaluateAny]

/-- Several trees become a group. -/
theorem StandTogether.finish_group {first second : Filter} {trees : List Filter}
    (together : StandTogether calls (first :: second :: trees)) :
    Stands (.group mode calls) (.group mode (first :: second :: trees)) where
  comparisons_ne := together.comparisons_ne
  comparisons_eq := together.comparisons_eq
  groupings_eq := by
    have proper : Grouping.IsProper ⟨mode.symbol, BuilderCall.members calls⟩ := by
      rw [Grouping.IsProper, ← together.members_eq]
      simp
    rw [BuilderCall.groupings, List.filter_cons, if_pos (decide_eq_true proper),
      ← together.groupings_eq, ← together.members_eq]
    rfl
  evaluate_eq truth := by
    rw [Filter.group, Filter.evaluate, LogicalOperator.parse?_symbol]
    cases mode with
    | and => exact together.all_eq truth
    | or => exact together.any_eq truth

/-- What a builder of trees builds stands for the group of their calls. -/
theorem StandTogether.finish {trees : List Filter} (together : StandTogether calls trees) :
    StandsOrNone (.group mode calls) (FilterBuilder.finish ⟨mode, trees⟩) := by
  match trees, together with
  | [], together => exact together.finish_nil
  | [tree], together => exact together.finish_singleton
  | _ :: _ :: _, together => exact together.finish_group

/-! ## All calls -/

theorem stands_comparison {node : Comparison} (comparisons_eq : step.comparisons = [node])
    (groupings_eq : step.groupings = [])
    (evaluate_eq : ∀ truth, step.evaluate truth = truth node) :
    Stands step (.comparison node) where
  comparisons_ne := by simp [comparisons_eq]
  comparisons_eq := comparisons_eq.symm
  groupings_eq := by
    rw [groupings_eq]
    rfl
  evaluate_eq truth := by
    rw [Filter.evaluate, evaluate_eq]

mutual
/-- The node of a call stands for it. -/
theorem node?_stands : (step : BuilderCall) → StandsOrNone step (node? step)
  | .compare _ _ _ => stands_comparison rfl rfl fun _ => rfl
  | .testNull _ _ => stands_comparison rfl rfl fun _ => rfl
  | .custom _ _ _ => stands_comparison rfl rfl fun _ => rfl
  | .group mode calls => by
      rw [node?, nodes_callAll]
      exact (nodes_stand calls).finish

/-- The nodes of calls stand for them. -/
theorem nodes_stand : (calls : List BuilderCall) → StandTogether calls (calls.filterMap node?)
  | [] => .nil
  | first :: rest => by
      have stands := node?_stands first
      cases node_eq : node? first with
      | none =>
          rw [node_eq] at stands
          rw [List.filterMap_cons_none node_eq]
          exact (nodes_stand rest).skip stands.1 stands.2
      | some node =>
          rw [node_eq] at stands
          rw [List.filterMap_cons_some node_eq]
          exact .cons stands (nodes_stand rest)
end

/-- A builder of either operator builds nothing exactly if no comparison has been added at any
depth.  Otherwise the tree has the comparisons that have been added, in their order; its groups
are the groups of the calls with several members that have comparisons, with their operators and
with these members; and it holds where the conjunctions and disjunctions of the calls do. -/
theorem finish_callAll (mode : LogicalOperator) (calls : List BuilderCall) :
    (((new mode).callAll calls).finish = none ↔ BuilderCall.comparisonsOfAll calls = []) ∧
      ∀ tree, ((new mode).callAll calls).finish = some tree →
        tree.comparisons = BuilderCall.comparisonsOfAll calls ∧
        tree.groupings = (BuilderCall.group mode calls).groupings.filter Grouping.IsProper ∧
        (∀ grouping ∈ tree.groupings, 2 ≤ grouping.members.length) ∧
        ∀ truth, tree.evaluate truth = (BuilderCall.group mode calls).evaluate truth := by
  have stands := node?_stands (.group mode calls)
  rw [node?] at stands
  cases finish_eq : ((new mode).callAll calls).finish with
  | none =>
      rw [finish_eq] at stands
      exact ⟨iff_of_true rfl stands.1, fun _ found => nomatch found⟩
  | some tree =>
      rw [finish_eq] at stands
      refine ⟨iff_of_false (Option.some_ne_none tree) stands.comparisons_ne, ?_⟩
      rintro _ ⟨⟩
      refine ⟨stands.comparisons_eq, stands.groupings_eq, ?_, stands.evaluate_eq⟩
      intro grouping member
      rw [stands.groupings_eq] at member
      exact of_decide_eq_true (List.mem_filter.mp member).2

/-- A disjunction in a group with one member becomes the member; an empty group is dropped. -/
theorem finish_callAll_nested :
    let calls : List BuilderCall :=
      [.group .and
        [.group .or [.compare .equal "id" ["1"], .testNull "name" true],
          .group .or [.group .and []]],
        .custom "id" "<" ["3"]]
    let first : Comparison := ⟨"id", "==", ["1"]⟩
    let second : Comparison := ⟨"name", "!=", ["null"]⟩
    let third : Comparison := ⟨"id", "<", ["3"]⟩
    ∃ tree, ((new .and).callAll calls).finish = some tree ∧
      tree.comparisons = [first, second, third] ∧
      tree.groupings = [⟨";", [[first, second], [third]]⟩, ⟨",", [[first], [second]]⟩] ∧
      ∀ truth, tree.evaluate truth = ((truth first || truth second) && truth third) := by
  intro calls first second third
  have built : ((new .and).callAll calls).finish =
      some (.group .and [.group .or [.comparison first, .comparison second],
        .comparison third]) := rfl
  obtain ⟨-, stands⟩ := finish_callAll .and calls
  obtain ⟨comparisons_eq, groupings_eq, -, evaluate_eq⟩ := stands _ built
  refine ⟨_, built, comparisons_eq, groupings_eq.trans (by decide +kernel), fun truth => ?_⟩
  rw [evaluate_eq]
  simp [calls, BuilderCall.evaluate, BuilderCall.evaluateAll, BuilderCall.evaluateAny,
    BuilderCall.comparisons, BuilderCall.comparisonsOfAll, first, second, third,
    ComparisonOperator.symbol]

end FilterBuilder

end FilterQuery
