import FilterQuery.Proofs.Compile.Trees

/-!
# The first offence

A compile goes through a tree in pre-order and stops at the first node that is at fault: a group
without an operator, an extension, or a comparison that does not compile.  Where every
comparison fares the same in all the queries that it can meet, this alone decides the outcome.
-/

namespace FilterQuery

/-- What an outcome stopped for. -/
def Compile.stop? {α : Type} : Except Stop α → Option Stop
  | .error stop => some stop
  | .ok _ => none

namespace Filter

mutual
/-- The nodes of a tree in pre-order: a group, then the nodes of its children. -/
def nodes : Filter → List Filter
  | .comparison node => [.comparison node]
  | .logical symbol children => .logical symbol children :: nodesOfChildren children
  | .extension kind => [.extension kind]

def nodesOfChildren : List Filter → List Filter
  | [] => []
  | child :: children => child.nodes ++ nodesOfChildren children
end

/-- What a compile stops for at a node itself, given what it stops for at comparisons. -/
def offence? (wrong : Comparison → Option Stop) : Filter → Option Stop
  | .comparison node => wrong node
  | .logical symbol _ =>
      match LogicalOperator.parse? symbol with
      | none => some (.rejected (.unknownLogicalOperator symbol))
      | some _ => none
  | .extension kind => some (.rejected (.unsupportedNodeType kind))

/-- Filters without extensions whose groups all have an operator. -/
inductive Regular : Filter → Prop
  | comparison (node : Comparison) : Regular (.comparison node)
  | logical {symbol : String} {operator : LogicalOperator} {children : List Filter}
      (meaning : LogicalOperator.parse? symbol = some operator)
      (each : ∀ child ∈ children, Regular child) : Regular (.logical symbol children)

mutual
theorem Mirrors.regular {related : Comparison → Predicate → Prop} : {filter : Filter} →
    {predicate : Predicate} → filter.Mirrors related predicate → filter.Regular
  | _, _, .comparison _ => .comparison _
  | _, _, .logical meaning each => .logical meaning each.regular

theorem MirrorsEach.regular {related : Comparison → Predicate → Prop} :
    {children : List Filter} → {predicates : List Predicate} →
      MirrorsEach related children predicates → ∀ child ∈ children, child.Regular
  | _, _, .nil => fun _ member => nomatch member
  | _, _, .cons first others => List.forall_mem_cons.mpr ⟨first.regular, others.regular⟩
end

mutual
theorem mem_comparisons_of_mem_nodes {node : Comparison} : (filter : Filter) →
    .comparison node ∈ filter.nodes → node ∈ filter.comparisons
  | .comparison other, member => by
      rw [nodes, List.mem_singleton] at member
      cases member
      simp [comparisons]
  | .logical symbol children, member => by
      rw [nodes, List.mem_cons] at member
      rcases member with same | member
      · cases same
      · exact mem_comparisonsOfChildren_of_mem_nodes children member
  | .extension kind, member => by
      rw [nodes, List.mem_singleton] at member
      cases member

theorem mem_comparisonsOfChildren_of_mem_nodes {node : Comparison} : (children : List Filter) →
    .comparison node ∈ nodesOfChildren children → node ∈ comparisonsOfChildren children
  | [], member => nomatch member
  | child :: children, member => by
      rw [nodesOfChildren, List.mem_append] at member
      rw [comparisonsOfChildren, List.mem_append]
      exact member.imp (mem_comparisons_of_mem_nodes child)
        (mem_comparisonsOfChildren_of_mem_nodes children)
end

/-! ## Without an offence -/

variable {wrong : Comparison → Option Stop}

mutual
/-- A tree has no offence if its groups have operators and nothing is wrong with its
comparisons. -/
theorem findSome?_offence?_eq_none_iff : (filter : Filter) →
    (filter.nodes.findSome? (offence? wrong) = none ↔
      filter.Regular ∧ ∀ node ∈ filter.comparisons, wrong node = none)
  | .comparison node => by
      have regular : (Filter.comparison node).Regular := .comparison node
      simp [nodes, comparisons, offence?, regular]
  | .logical symbol children => by
      have ih := findSome?_offence?_children_eq_none_iff children
      rw [nodes, List.findSome?_cons, offence?, comparisons]
      cases meaning : LogicalOperator.parse? symbol with
      | none =>
          have irregular : ¬ (Filter.logical symbol children).Regular := by
            rintro (_ | ⟨meaning', -⟩)
            cases meaning.symm.trans meaning'
          simp [irregular]
      | some operator =>
          have regular_iff :
              (Filter.logical symbol children).Regular ↔ ∀ child ∈ children, child.Regular :=
            ⟨fun | .logical _ each => each, .logical meaning⟩
          rw [regular_iff]
          exact ih
  | .extension kind => by
      have irregular : ¬ (Filter.extension kind).Regular := nofun
      simp [nodes, offence?, irregular]

theorem findSome?_offence?_children_eq_none_iff : (children : List Filter) →
    ((nodesOfChildren children).findSome? (offence? wrong) = none ↔
      (∀ child ∈ children, child.Regular) ∧
        ∀ node ∈ comparisonsOfChildren children, wrong node = none)
  | [] => by simp [nodesOfChildren, comparisonsOfChildren]
  | child :: children => by
      rw [nodesOfChildren, List.findSome?_append, Option.or_eq_none_iff,
        findSome?_offence?_eq_none_iff child, findSome?_offence?_children_eq_none_iff children,
        comparisonsOfChildren, List.forall_mem_cons, List.forall_mem_append]
      exact and_and_and_comm
end

/-! ## Stopping -/

variable {leaf : Comparison → Compile Predicate} {Inv : Query → Prop}

mutual
/-- A compile stops at the first offence, if comparisons stop alike in all queries that they can
meet. -/
theorem stop?_compileWith : (filter : Filter) →
    (∀ node ∈ filter.comparisons, Compile.Keeps Inv (leaf node) ∧
      ∀ query, Inv query → Compile.stop? (leaf node query).1 = wrong node) →
      ∀ query, Inv query → Compile.stop? (filter.compileWith leaf query).1 =
        filter.nodes.findSome? (offence? wrong)
  | .comparison node, steady, query, h => by
      rw [compileWith, (steady node (by simp [comparisons])).2 query h]
      simp [nodes, offence?]
  | .logical symbol children, steady, query, h => by
      have ih := stop?_compileChildren children steady query h
      rw [compileWith, nodes, List.findSome?_cons, offence?]
      cases LogicalOperator.parse? symbol with
      | none => rfl
      | some operator =>
          dsimp only
          rw [← ih]
          rcases compiled : compileChildren leaf children query with ⟨stop | predicates, next⟩
          · rw [Compile.bind_apply_of_error compiled]
            rfl
          · rw [Compile.bind_apply_of_ok compiled]
            rfl
  | .extension kind, _, _, _ => rfl

theorem stop?_compileChildren : (children : List Filter) →
    (∀ node ∈ comparisonsOfChildren children, Compile.Keeps Inv (leaf node) ∧
      ∀ query, Inv query → Compile.stop? (leaf node query).1 = wrong node) →
      ∀ query, Inv query → Compile.stop? (compileChildren leaf children query).1 =
        (nodesOfChildren children).findSome? (offence? wrong)
  | [], _, query, _ => by
      rw [compileChildren]
      rfl
  | child :: children, steady, query, h => by
      rw [comparisonsOfChildren] at steady
      rcases List.forall_mem_append.mp steady with ⟨steadyFirst, steadyOthers⟩
      have first := stop?_compileWith child steadyFirst query h
      have kept := compileWith_keeps child (fun node member => (steadyFirst node member).1) query h
      rw [compileChildren, nodesOfChildren, List.findSome?_append, ← first]
      rcases compiled : child.compileWith leaf query with ⟨stop | predicate, next⟩
      · rw [Compile.bind_apply_of_error compiled]
        rfl
      · rw [compiled] at kept
        have others := stop?_compileChildren children steadyOthers next kept
        rw [Compile.bind_apply_of_ok compiled, Compile.stop?, Option.none_or, ← others]
        rcases compiledOthers : compileChildren leaf children next with ⟨stop | predicates, last⟩
        · rw [Compile.bind_apply_of_error compiledOthers]
        · rw [Compile.bind_apply_of_ok compiledOthers]
          rfl
end

/-- A tree compiles if its comparisons do wherever they keep what they need. -/
theorem exists_compileWith_eq_ok (filter : Filter) (regular : filter.Regular)
    (succeed : ∀ node ∈ filter.comparisons, Compile.Keeps Inv (leaf node) ∧
      ∀ query, Inv query → ∃ predicate next, leaf node query = (.ok predicate, next))
    (query : Query) (h : Inv query) :
    ∃ predicate next, filter.compileWith leaf query = (.ok predicate, next) := by
  have stop_eq := filter.stop?_compileWith (fun node member =>
    ⟨(succeed node member).1, fun query h => by
      rcases (succeed node member).2 query h with ⟨predicate, next, compiled⟩
      rw [compiled]
      rfl⟩) query h
  rw [(findSome?_offence?_eq_none_iff filter).mpr ⟨regular, fun _ _ => rfl⟩] at stop_eq
  rcases compiled : filter.compileWith leaf query with ⟨stop | predicate, next⟩
  · rw [compiled] at stop_eq
    cases stop_eq
  · exact ⟨predicate, next, rfl⟩

end Filter

end FilterQuery
