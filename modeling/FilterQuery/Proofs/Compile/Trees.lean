import FilterQuery.Compile

/-!
# Compiling trees

A tree is compiled by its comparisons alone.  What the compile of each of them keeps of a
query, the compile of the whole tree keeps, whether it succeeds or fails.  After a success
the predicate mirrors the filter, group by group and comparison by comparison, and what a
comparison has established still holds once the comparisons behind it have been compiled.
-/

namespace FilterQuery

/-! ## Computations -/

namespace Compile

variable {α β : Type} {query next : Query}

theorem bind_apply_of_ok {x : Compile α} {f : α → Compile β} {a : α}
    (h : x query = (.ok a, next)) : (x >>= f) query = f a next := by
  change (match x query with | (result, middle) => ExceptT.bindCont f result middle) = f a next
  rw [h]
  rfl

theorem bind_apply_of_error {x : Compile α} {f : α → Compile β} {stop : Stop}
    (h : x query = (.error stop, next)) : (x >>= f) query = (.error stop, next) := by
  change (match x query with | (result, middle) => ExceptT.bindCont f result middle) = _
  rw [h]
  rfl

/-- Both parts of a computation that succeeds have succeeded. -/
theorem exists_of_bind_eq_ok {x : Compile α} {f : α → Compile β} {b : β}
    (h : (x >>= f) query = (.ok b, next)) :
    ∃ a middle, x query = (.ok a, middle) ∧ f a middle = (.ok b, next) := by
  rcases first : x query with ⟨stop | a, middle⟩
  · rw [bind_apply_of_error first] at h
    cases h
  · rw [bind_apply_of_ok first] at h
    exact ⟨a, middle, rfl, h⟩

/-- A computation keeps what holds of the query, whether it succeeds or fails. -/
def Keeps (Inv : Query → Prop) (x : Compile α) : Prop :=
  ∀ query, Inv query → Inv (x query).2

variable {Inv : Query → Prop}

theorem Keeps.pure (a : α) : Keeps Inv (pure a : Compile α) :=
  fun _ h => h

theorem Keeps.reject (error : CompileError) : Keeps Inv (reject error : Compile α) :=
  fun _ h => h

theorem Keeps.ofExcept (outcome : Except CompileError α) :
    Keeps Inv (Compile.ofExcept outcome) := by
  cases outcome with
  | error error => exact .reject error
  | ok a => exact .pure a

theorem Keeps.bind {x : Compile α} {f : α → Compile β} (first : Keeps Inv x)
    (second : ∀ a, Keeps Inv (f a)) : Keeps Inv (x >>= f) := by
  intro query h
  have kept := first query h
  rcases middle : x query with ⟨stop | a, next⟩
  · rw [bind_apply_of_error middle]
    rwa [middle] at kept
  · rw [bind_apply_of_ok middle]
    rw [middle] at kept
    exact second a next kept

end Compile

/-! ## Trees -/

open Compile (Keeps)

variable {leaf other : Comparison → Compile Predicate} {Inv : Query → Prop}

mutual
/-- A tree is compiled alike by leaves that agree on its comparisons. -/
theorem Filter.compileWith_congr : (filter : Filter) →
    (∀ node ∈ filter.comparisons, leaf node = other node) →
      filter.compileWith leaf = filter.compileWith other
  | .comparison node, agree => by
      rw [compileWith, compileWith]
      exact agree node (by simp [comparisons])
  | .logical symbol children, agree => by
      rw [compileWith, compileWith, compileChildren_congr children agree]
  | .extension kind, _ => by
      rw [compileWith, compileWith]

theorem Filter.compileChildren_congr : (children : List Filter) →
    (∀ node ∈ comparisonsOfChildren children, leaf node = other node) →
      compileChildren leaf children = compileChildren other children
  | [], _ => by
      rw [compileChildren, compileChildren]
  | child :: children, agree => by
      rw [comparisonsOfChildren] at agree
      rcases List.forall_mem_append.mp agree with ⟨first, others⟩
      rw [compileChildren, compileChildren, compileWith_congr child first,
        compileChildren_congr children others]
end

mutual
/-- What each comparison keeps, a tree keeps. -/
theorem Filter.compileWith_keeps : (filter : Filter) →
    (∀ node ∈ filter.comparisons, Keeps Inv (leaf node)) → Keeps Inv (filter.compileWith leaf)
  | .comparison node, keeps => by
      rw [compileWith]
      exact keeps node (by simp [comparisons])
  | .logical symbol children, keeps => by
      rw [compileWith]
      split
      · exact .reject _
      · exact (compileChildren_keeps children keeps).bind fun _ => .pure _
  | .extension kind, _ => by
      rw [compileWith]
      exact .reject _

theorem Filter.compileChildren_keeps : (children : List Filter) →
    (∀ node ∈ comparisonsOfChildren children, Keeps Inv (leaf node)) →
      Keeps Inv (compileChildren leaf children)
  | [], _ => by
      rw [compileChildren]
      exact .pure _
  | child :: children, keeps => by
      rw [compileChildren]
      rw [comparisonsOfChildren] at keeps
      rcases List.forall_mem_append.mp keeps with ⟨first, others⟩
      exact (compileWith_keeps child first).bind fun _ =>
        (compileChildren_keeps children others).bind fun _ => .pure _
end

mutual
/-- A predicate that has the shape of a filter, with related leaves. -/
inductive Filter.Mirrors (related : Comparison → Predicate → Prop) : Filter → Predicate → Prop
  | comparison {node : Comparison} {predicate : Predicate} (leaf : related node predicate) :
      Mirrors related (.comparison node) predicate
  | logical {symbol : String} {operator : LogicalOperator} {children : List Filter}
      {predicates : List Predicate} (meaning : LogicalOperator.parse? symbol = some operator)
      (each : MirrorsEach related children predicates) :
      Mirrors related (.logical symbol children) (.group operator predicates)

/-- Predicates that have the shapes of filters, one by one. -/
inductive Filter.MirrorsEach (related : Comparison → Predicate → Prop) :
    List Filter → List Predicate → Prop
  | nil : MirrorsEach related [] []
  | cons {child : Filter} {predicate : Predicate} {children : List Filter}
      {predicates : List Predicate} (first : Mirrors related child predicate)
      (others : MirrorsEach related children predicates) :
      MirrorsEach related (child :: children) (predicate :: predicates)
end

mutual
theorem Filter.Mirrors.mono {related other : Comparison → Predicate → Prop} : {filter : Filter} →
    {predicate : Predicate} → filter.Mirrors related predicate →
      (∀ node ∈ filter.comparisons, ∀ predicate, related node predicate → other node predicate) →
        filter.Mirrors other predicate
  | _, _, .comparison leaf, weaker => .comparison (weaker _ (by simp [comparisons]) _ leaf)
  | _, _, .logical meaning each, weaker => .logical meaning (each.mono weaker)

theorem Filter.MirrorsEach.mono {related other : Comparison → Predicate → Prop} :
    {children : List Filter} → {predicates : List Predicate} →
      MirrorsEach related children predicates →
        (∀ node ∈ comparisonsOfChildren children, ∀ predicate,
          related node predicate → other node predicate) →
          MirrorsEach other children predicates
  | _, _, .nil, _ => .nil
  | _, _, .cons first others, weaker => by
      rw [comparisonsOfChildren] at weaker
      rcases List.forall_mem_append.mp weaker with ⟨weakerFirst, weakerOthers⟩
      exact .cons (first.mono weakerFirst) (others.mono weakerOthers)
end

mutual
/-- Each comparison of a filter is related to a leaf of a predicate that mirrors it. -/
theorem Filter.Mirrors.exists_related {related : Comparison → Predicate → Prop} :
    {filter : Filter} → {predicate : Predicate} → filter.Mirrors related predicate →
      ∀ node ∈ filter.comparisons, ∃ leaf, related node leaf
  | _, _, .comparison leaf => by
      intro node member
      obtain rfl := List.mem_singleton.mp member
      exact ⟨_, leaf⟩
  | _, _, .logical _ each => each.exists_related

theorem Filter.MirrorsEach.exists_related {related : Comparison → Predicate → Prop} :
    {children : List Filter} → {predicates : List Predicate} →
      MirrorsEach related children predicates →
        ∀ node ∈ comparisonsOfChildren children, ∃ leaf, related node leaf
  | _, _, .nil => fun _ member => nomatch member
  | _, _, .cons first others => by
      rw [comparisonsOfChildren]
      exact List.forall_mem_append.mpr ⟨first.exists_related, others.exists_related⟩
end

/-- What the compile of a comparison establishes, and what later ones keep. -/
structure Establishes (leaf : Comparison → Compile Predicate) (Inv : Query → Prop)
    (related : Query → Comparison → Predicate → Prop) (nodes : List Comparison) : Prop where
  keeps : ∀ node ∈ nodes, Keeps Inv (leaf node)
  holds : ∀ node ∈ nodes, ∀ query next predicate, Inv query →
    leaf node query = (.ok predicate, next) → related next node predicate
  stable : ∀ later ∈ nodes, ∀ node predicate,
    Keeps (fun query => Inv query ∧ related query node predicate) (leaf later)

variable {related : Query → Comparison → Predicate → Prop} {query next : Query}

theorem Establishes.append {nodes more : List Comparison}
    (establishes : Establishes leaf Inv related (nodes ++ more)) :
    Establishes leaf Inv related nodes ∧ Establishes leaf Inv related more := by
  rcases List.forall_mem_append.mp establishes.keeps with ⟨keeps, keepsMore⟩
  rcases List.forall_mem_append.mp establishes.holds with ⟨holds, holdsMore⟩
  rcases List.forall_mem_append.mp establishes.stable with ⟨stable, stableMore⟩
  exact ⟨⟨keeps, holds, stable⟩, ⟨keepsMore, holdsMore, stableMore⟩⟩

mutual
/-- A successful compile gives a predicate that mirrors the filter, and each comparison is
related to its leaf in the query at the end. -/
theorem Filter.compileWith_mirrors : (filter : Filter) → {query next : Query} →
    {predicate : Predicate} → Establishes leaf Inv related filter.comparisons → Inv query →
      filter.compileWith leaf query = (.ok predicate, next) →
        filter.Mirrors (related next) predicate
  | .comparison node, query, next, predicate, establishes, h, compiled => by
      rw [compileWith] at compiled
      exact .comparison (establishes.holds node (by simp [comparisons]) _ _ _ h compiled)
  | .logical symbol children, query, next, predicate, establishes, h, compiled => by
      rw [compileWith] at compiled
      cases meaning : LogicalOperator.parse? symbol with
      | none =>
          rw [meaning] at compiled
          cases compiled
      | some operator =>
          rw [meaning] at compiled
          obtain ⟨predicates, middle, compiledChildren, ended⟩ :=
            Compile.exists_of_bind_eq_ok compiled
          cases ended
          exact .logical meaning (compileChildren_mirrors children establishes h compiledChildren)
  | .extension kind, query, next, predicate, _, _, compiled => by
      rw [compileWith] at compiled
      cases compiled

theorem Filter.compileChildren_mirrors : (children : List Filter) → {query next : Query} →
    {predicates : List Predicate} →
      Establishes leaf Inv related (comparisonsOfChildren children) → Inv query →
        compileChildren leaf children query = (.ok predicates, next) →
          MirrorsEach (related next) children predicates
  | [], query, next, predicates, _, _, compiled => by
      rw [compileChildren] at compiled
      cases compiled
      exact .nil
  | child :: children, query, next, predicates, establishes, h, compiled => by
      rw [compileChildren] at compiled
      rw [comparisonsOfChildren] at establishes
      rcases establishes.append with ⟨establishesFirst, establishesOthers⟩
      obtain ⟨predicate, middle, compiledFirst, compiledRest⟩ :=
        Compile.exists_of_bind_eq_ok compiled
      rcases Compile.exists_of_bind_eq_ok compiledRest with ⟨others, last, compiledOthers, ended⟩
      cases ended
      have kept : Inv middle := by
        have := compileWith_keeps child establishesFirst.keeps query h
        rwa [compiledFirst] at this
      refine .cons ?_ (compileChildren_mirrors children establishesOthers kept compiledOthers)
      -- the other children come after the first one, and keep what it has established
      apply (compileWith_mirrors child establishesFirst h compiledFirst).mono
      intro node _ found holds
      have stable := compileChildren_keeps children
        (fun later member => establishesOthers.stable later member node found) middle ⟨kept, holds⟩
      rw [compiledOthers] at stable
      exact stable.2
end

end FilterQuery
