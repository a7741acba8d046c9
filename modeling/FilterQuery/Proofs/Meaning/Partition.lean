import FilterQuery.Proofs.Compile.Landing
import FilterQuery.Proofs.Compile.Repeated
import FilterQuery.Proofs.Compile.Strategies
import FilterQuery.Proofs.Compile.Typing
import FilterQuery.Proofs.Value.Order

/-!
# Comparisons that divide the tuples

Equalities are decided by what values are taken for, and the other comparisons by their order.
Between a value that an attribute holds and a literal of its type the two go together: enumerations
list each constant once, and words and numbers share one order.  So the tuples with a value are
divided into those below a literal, at it and above it, and the other comparisons are made up of
these; tuples without a value pass none of them.
-/

namespace FilterQuery

/-! ## Values that attributes hold -/

/-- The values that attributes of a type hold: those of its kind, whole numbers among floats, and
infinities as well. -/
inductive AttributeType.Holds : AttributeType → Value → Prop
  | int (n : Int64) : Holds .integer (.int n)
  | whole (n : Int64) : Holds .float (.int n)
  | float {x : Number.Binary64} (number : x.isNaN = false) : Holds .float (.float x)
  | bool (b : Bool) : Holds .boolean (.bool b)
  | text (s : String) : Holds .text (.text s)
  | object {typeName : String} {comparable : Bool} (s : String) :
      Holds (.object typeName comparable) (.text s)
  | instant {format : Option String} (nanos : Int) : Holds (.temporal format) (.instant nanos)
  | constant {name constant : String} {variants : List String} {ordinal : UInt32}
      (found : variants[ordinal.toNat]? = some constant) :
      Holds (.enum name variants) (.enum ordinal constant)

/-- An enumeration that lists each constant once, at a place of its own. -/
def AttributeType.ConstantsDistinct (type : AttributeType) : Prop :=
  ∀ name variants, type = .enum name variants → variants.Nodup ∧ variants.length < UInt32.size

/-- The places of constants that are listed once tell them apart. -/
theorem AttributeType.ConstantsDistinct.constantsFit {type : AttributeType}
    (distinct : type.ConstantsDistinct) (orderable : type.isOrderable = true) :
    type.ConstantsFit := by
  cases type with
  | enum name variants => exact (distinct name variants rfl).2
  | reference entity identifier => cases orderable
  | _ => trivial

namespace Value

variable {value literal : Value}

/-- Values that are compared, and agree exactly if neither is before the other. -/
def InOrder (value literal : Value) (order : Ordering) : Prop :=
  value.compare literal = some order ∧ (value.agrees literal = true ↔ order = .eq)

theorem inOrder_of_compare {order : Ordering}
    (hvalue : ∀ ordinal name, value ≠ .enum ordinal name)
    (hliteral : ∀ ordinal name, literal ≠ .enum ordinal name)
    (compared : value.compare literal = some order) : value.InOrder literal order := by
  refine ⟨compared, ?_⟩
  rw [agrees_iff_compare hvalue hliteral, compared, Option.some_inj]

end Value

/-- What an attribute holds is in order with the literals of its type. -/
theorem AttributeType.Holds.exists_inOrder {type : AttributeType} {value literal : Value}
    (holds : type.Holds value) (admits : type.Admits literal)
    (distinct : type.ConstantsDistinct) : ∃ order, value.InOrder literal order := by
  have valued {x : Number.Binary64} (number : x.isNaN = false) : ∃ v, x.value? = some v := by
    rw [← Option.ne_none_iff_exists', ne_eq, Number.Binary64.value?_eq_none_iff, number]
    exact Bool.false_ne_true
  cases holds with
  | int n => cases admits with | int k => exact ⟨_, Value.inOrder_of_compare (by simp) (by simp) rfl⟩
  | bool b => cases admits with | bool c => exact ⟨_, Value.inOrder_of_compare (by simp) (by simp) rfl⟩
  | text s => cases admits with | text t => exact ⟨_, Value.inOrder_of_compare (by simp) (by simp) rfl⟩
  | object s =>
      cases admits with | object t => exact ⟨_, Value.inOrder_of_compare (by simp) (by simp) rfl⟩
  | instant nanos =>
      cases admits with | instant k => exact ⟨_, Value.inOrder_of_compare (by simp) (by simp) rfl⟩
  | whole n =>
      cases admits with
      | @float x finite =>
          obtain ⟨v, stands⟩ := valued (Number.Binary64.isNaN_of_isFinite finite)
          have compared := Value.compare_eq (.int n) (.float x)
          simp only [Value.rank?, stands] at compared
          exact ⟨_, Value.inOrder_of_compare (by simp) (by simp) compared⟩
  | @float x number =>
      cases admits with
      | @float y finite =>
          obtain ⟨v, x_stands⟩ := valued number
          obtain ⟨w, y_stands⟩ := valued (Number.Binary64.isNaN_of_isFinite finite)
          have compared := Value.compare_eq (.float x) (.float y)
          simp only [Value.rank?, x_stands, y_stands] at compared
          exact ⟨_, Value.inOrder_of_compare (by simp) (by simp) compared⟩
  | @constant _ first variants i hfirst =>
      cases admits with
      | @constant _ second _ j hsecond =>
          refine ⟨Ord.compare i j, rfl, ?_⟩
          show decide (first = second) = true ↔ _
          rw [decide_eq_true_iff, Std.LawfulEqOrd.compare_eq_iff_eq]
          constructor
          · rintro rfl
            have inside := (List.getElem?_eq_some_iff.mp hfirst).1
            have place_eq := (List.getElem?_inj inside (distinct _ _ rfl).1).mp
              (hfirst.trans hsecond.symm)
            exact UInt32.toNat_inj.mp place_eq
          · rintro rfl
            exact Option.some.inj (hfirst.symm.trans hsecond)

/-! ## Comparisons of one value with one literal -/

/-- How the comparisons of a value come out: all fail if there is none.  Otherwise it is below, at
or above the literal, and what the other comparisons say follows from that. -/
structure Value.Divided (value : Value) (truth : CompareOp → Bool) : Prop where
  missing : value = .null → ∀ op, truth op = false
  one : value ≠ .null → (truth .lt).toNat + (truth .eq).toNat + (truth .gt).toNat = 1
  ne : value ≠ .null → truth .ne = !truth .eq
  ge : truth .ge = (truth .gt || truth .eq)
  le : truth .le = (truth .lt || truth .eq)

namespace Value

theorem divided_null (literal : Value) : Value.null.Divided fun op => op.holds .null literal := by
  constructor <;> simp [not_holds_null]

variable {value literal : Value} {order : Ordering}

theorem InOrder.ne_null (inOrder : value.InOrder literal order) :
    value.isNull = false ∧ literal.isNull = false := by
  obtain ⟨compared, -⟩ := inOrder
  cases value <;> cases literal <;> first
    | exact ⟨rfl, rfl⟩
    | cases compared

theorem InOrder.divided (inOrder : value.InOrder literal order) :
    value.Divided fun op => op.holds value literal := by
  obtain ⟨value_given, literal_given⟩ := inOrder.ne_null
  obtain ⟨compared, agreed⟩ := inOrder
  have agrees_eq : value.agrees literal = decide (order = .eq) := by
    rw [Bool.eq_iff_iff, agreed, decide_eq_true_iff]
  have present : value ≠ .null := by
    rintro rfl
    cases value_given
  constructor <;>
    simp only [CompareOp.holds, compared, agrees_eq, value_given, literal_given, present, ne_eq,
      not_false_eq_true, false_implies, forall_const, Bool.not_false, Bool.true_and,
      Option.any_some]
  all_goals cases order <;> rfl

/-- No value is both below a literal and not below it, and every one is either. -/
theorem Divided.below {truth : CompareOp → Bool} (divided : value.Divided truth) :
    (truth .lt && truth .ge) = false ∧ (truth .lt || truth .ge) = decide (value ≠ .null) := by
  by_cases missing : value = .null
  · simp [divided.missing missing, missing]
  · have one := divided.one missing
    rw [divided.ge, decide_eq_true missing]
    cases below : truth .lt <;> cases same : truth .eq <;> cases above : truth .gt <;>
      simp [below, same, above] at one ⊢

end Value

/-! ## Comparisons that are compiled -/

/-- The condition of a comparison whose argument stands for a value. -/
theorem Literals.condition_eq_compare {literals : Literals} {operator : ComparisonOperator}
    {op : CompareOp} {target : Attribute} {argument : String} {literal : Value}
    (meaning : operator.meaning = .comparison op) (given : argument ≠ literals.nullToken)
    (plain : target.type = .text → '*' ∉ argument.toList)
    (coerced : literals.parser argument target.type = .ok literal)
    (orderable : target.type.isOrderable = true) (symbol : String) :
    literals.condition operator symbol target [argument] =
      .ok (.compare target.path op literal) := by
  have type_eq (textual : target.type.isTextual = true) : target.type = .text := by
    cases type_eq : target.type <;> simp_all [AttributeType.isTextual]
  rw [condition_eq_valueTest meaning given fun textual => plain (type_eq textual), valueTest,
    coerce, if_neg given, coerced, orderable]
  simp [bind, Except.bind]

namespace Scope

variable {scope : Scope} {selector : String} {query next : Query} {target : Attribute}

/-- Two comparisons of which the second makes no join are compiled to the group of their
conditions. -/
theorem compileWith_pair {symbol : String} {operator : LogicalOperator}
    {first second : Comparison} {firstLeaf secondLeaf : Predicate}
    (meaning : LogicalOperator.parse? symbol = some operator)
    (hfirst : scope.compileBuiltin first query = (.ok firstLeaf, next))
    (hsecond : scope.compileBuiltin second next = (.ok secondLeaf, next)) :
    (Filter.logical symbol [.comparison first, .comparison second]).compileWith
        scope.compileBuiltin query = (.ok (.group operator [firstLeaf, secondLeaf]), next) := by
  have children : Filter.compileChildren scope.compileBuiltin
      [.comparison first, .comparison second] query = (.ok [firstLeaf, secondLeaf], next) := by
    simp only [Filter.compileChildren, Filter.compileWith]
    rw [Compile.bind_apply_of_ok hfirst, Compile.bind_apply_of_ok]
    rotate_left
    · rw [Compile.bind_apply_of_ok hsecond]
      rfl
    · rfl
  rw [Filter.compileWith, meaning]
  dsimp only
  rw [Compile.bind_apply_of_ok children]
  rfl

end Scope

namespace Store

variable {store : Store} {tuple : Tuple}

/-- A group of two conditions holds as the two decide. -/
theorem holds_pair {first second : Predicate} {a b : Bool}
    (hfirst : store.holds tuple first = .ok a) (hsecond : store.holds tuple second = .ok b) :
    store.holds tuple (.and [first, second]) = .ok (a && b) ∧
      store.holds tuple (.or [first, second]) = .ok (a || b) := by
  simp only [holds, holdAll, holdAny, hfirst, hsecond, bind, Except.bind]
  cases a <;> cases b <;> exact ⟨rfl, rfl⟩

/-- A tuple in which the value of an attribute is missing or of its kind. -/
def Supplies (store : Store) (target : Attribute) (tuple : Tuple) (value : Value) : Prop :=
  store.read target.path tuple = .ok value ∧ (value = .null ∨ target.type.Holds value)

theorem Supplies.exists_divided {target : Attribute} {value literal : Value}
    (supplies : store.Supplies target tuple value) (admits : target.type.Admits literal)
    (distinct : target.type.ConstantsDistinct) :
    ∃ truth, (∀ op, store.holds tuple (.compare target.path op literal) = .ok (truth op)) ∧
      value.Divided truth := by
  obtain ⟨read_eq, kind⟩ := supplies
  refine ⟨fun op => op.holds value literal, fun op => ?_, ?_⟩
  · rw [holds_of_test? rfl, read_eq]
    rfl
  · rcases kind with rfl | holds
    · exact Value.divided_null literal
    · obtain ⟨order, inOrder⟩ := holds.exists_inOrder admits distinct
      exact inOrder.divided

/-- Nothing is both below a literal and not below it, and everything with a value is either. -/
theorem Supplies.holds_below {target : Attribute} {value literal : Value}
    (supplies : store.Supplies target tuple value) (admits : target.type.Admits literal)
    (distinct : target.type.ConstantsDistinct) :
    let both : List Predicate :=
      [.compare target.path .lt literal, .compare target.path .ge literal]
    store.holds tuple (.and both) = .ok false ∧
      store.holds tuple (.or both) = .ok (decide (store.read target.path tuple ≠ .ok .null)) := by
  obtain ⟨truth, holds_eq, divided⟩ := supplies.exists_divided admits distinct
  obtain ⟨both_eq, either_eq⟩ := holds_pair (holds_eq .lt) (holds_eq .ge)
  dsimp only
  rw [both_eq, either_eq, divided.below.1, divided.below.2, supplies.1]
  simp

/-- So a query for both selects nothing, and one for either all that has a value. -/
theorem select_below {target : Attribute} {literal : Value} {query : Query} {tuples : List Tuple}
    (expanded : store.expand query = .ok tuples)
    (supplied : ∀ tuple ∈ tuples, ∃ value, store.Supplies target tuple value)
    (admits : target.type.Admits literal) (distinct : target.type.ConstantsDistinct) :
    let both : List Predicate :=
      [.compare target.path .lt literal, .compare target.path .ge literal]
    (query.filter = some (.and both) → store.select query = .ok []) ∧
      (query.filter = some (.or both) →
        let rows := (tuples.filter (store.read target.path · ≠ .ok .null)).map (·.root)
        store.select query = .ok (if query.distinct then withoutRepeats rows else rows)) := by
  have decided (tuple : Tuple) (member : tuple ∈ tuples) :=
    (supplied tuple member).elim fun _ supplies => supplies.holds_below admits distinct
  constructor
  · intro filter_eq
    have passes (tuple : Tuple) (member : tuple ∈ tuples) :
        store.passes query.filter tuple = .ok false := by
      rw [filter_eq]
      exact (decided tuple member).1
    rw [select_eq expanded passes]
    simp [withoutRepeats]
  · intro filter_eq
    apply select_eq expanded
    intro tuple member
    rw [filter_eq]
    exact (decided tuple member).2

end Store

/-- The six comparisons of one selector with one argument are compiled with the same joins, and
divide the tuples whose value is missing or of the kind of the attribute, whatever is read as a
date.  So nothing is selected by being below the argument and not below it, and all that has a value
by being either. -/
theorem Scope.comparisons_divide {scope : Scope} {dates : DateReading}
    {selector argument : String} {query next : Query} {target : Attribute} {literal : Value}
    (parser_eq : scope.parser = .withDates dates) (strategy : Option Strategy)
    (resolved : scope.resolve selector query = (.ok target, next))
    (orderable : target.type.isOrderable = true) (distinct : target.type.ConstantsDistinct)
    (coerced : scope.parser argument target.type = .ok literal)
    (given : argument ≠ scope.options.nullToken)
    (plain : target.type = .text → '*' ∉ argument.toList) :
    ∃ leaf : CompareOp → Predicate,
      (∀ operator op symbol, ComparisonOperator.parse? symbol = some operator →
        operator.meaning = .comparison op →
        scope.compile strategy (.comparison ⟨selector, symbol, [argument]⟩) query =
          (.ok (leaf op), next)) ∧
      (∀ symbol operator below notBelow, LogicalOperator.parse? symbol = some operator →
        ComparisonOperator.parse? below = some .lessThan →
        ComparisonOperator.parse? notBelow = some .greaterThanOrEqual →
        scope.compile strategy (.logical symbol [.comparison ⟨selector, below, [argument]⟩,
            .comparison ⟨selector, notBelow, [argument]⟩]) query =
          (.ok (.group operator [leaf .lt, leaf .ge]), next)) ∧
      (∀ (store : Store) tuple value, store.Supplies target tuple value →
        ∃ truth, (∀ op, store.holds tuple (leaf op) = .ok (truth op)) ∧ value.Divided truth) ∧
      ∀ (store : Store) (result : Query) tuples, store.expand result = .ok tuples →
        (∀ tuple ∈ tuples, ∃ value, store.Supplies target tuple value) →
        (result.filter = some (.and [leaf .lt, leaf .ge]) → store.select result = .ok []) ∧
        (result.filter = some (.or [leaf .lt, leaf .ge]) →
          let rows := (tuples.filter (store.read target.path · ≠ .ok .null)).map (·.root)
          store.select result =
            .ok (if result.distinct then Store.withoutRepeats rows else rows)) := by
  have fit := distinct.constantsFit orderable
  have admits : target.type.Admits literal := by
    rw [parser_eq] at coerced
    exact Coercion.admits_of_parse fit coerced
  have compiled {start : Query} {operator : ComparisonOperator} {op : CompareOp} {symbol : String}
      (parsed : ComparisonOperator.parse? symbol = some operator)
      (meaning : operator.meaning = .comparison op)
      (resolved : scope.resolve selector start = (.ok target, next)) :
      scope.compileBuiltin ⟨selector, symbol, [argument]⟩ start =
        (.ok (.compare target.path op literal), next) :=
    compileBuiltin_eq parsed resolved
      (Literals.condition_eq_compare meaning given plain coerced orderable symbol)
  let leaf (op : CompareOp) : Predicate := .compare target.path op literal
  refine ⟨leaf, ?alone, ?together, ?divided, ?selected⟩
  case alone =>
    intro operator op symbol parsed meaning
    rw [compile_of_isSymbol, compile_none, Filter.compileWith]
    · exact compiled parsed meaning resolved
    · simp [Filter.comparisons, ComparisonOperator.isSymbol_iff, parsed]
  case together =>
    intro symbol operator below notBelow grouped below_eq notBelow_eq
    rw [compile_of_isSymbol, compile_none]
    · exact compileWith_pair grouped (compiled below_eq rfl resolved)
        (compiled notBelow_eq rfl (resolve_again resolved))
    · simp [Filter.comparisons, Filter.comparisonsOfChildren, ComparisonOperator.isSymbol_iff,
        below_eq, notBelow_eq]
  case divided =>
    intro store tuple value supplies
    exact supplies.exists_divided admits distinct
  case selected =>
    intro store result tuples expanded supplied
    exact Store.select_below expanded supplied admits distinct

/-- Four tasks, each but the first a part of the one before it; the third one is in no state. -/
def taskStore : Store :=
  [(⟨1⟩, { identifier := "id"
           rows := [[("id", .value (.int 1)), ("state", .value (.enum 0 "open"))],
             [("id", .value (.int 2)), ("state", .value (.enum 1 "closed")),
               ("parent", .reference (some ⟨⟨1⟩, 0⟩))],
             [("id", .value (.int 3)), ("parent", .reference (some ⟨⟨1⟩, 1⟩))],
             [("id", .value (.int 4)), ("parent", .reference (some ⟨⟨1⟩, 2⟩))]] })]

/-- The states of the tasks above are divided by one of their constants. -/
theorem Scope.comparisons_divide_tasks :
    let scope := (QueryCompiler.select tasks.metadata ⟨1⟩).scope
    let state : AttributeType := .enum "State" ["open", "closed"]
    let target : Attribute := ⟨⟨.join 0, ["state"]⟩, "state", state⟩
    ∃ (next : Query) (leaf : CompareOp → Predicate),
      scope.resolve "parent.state" (.select ⟨1⟩) = (.ok target, next) ∧
      state.isOrderable = true ∧ state.ConstantsDistinct ∧
      scope.parser "closed" state = .ok (.enum 1 "closed") ∧
      "closed" ≠ scope.options.nullToken ∧
      scope.compile none (.comparison ⟨"parent.state", "<", ["closed"]⟩) (.select ⟨1⟩) =
        (.ok (leaf .lt), next) ∧
      taskStore.select { next with filter := some (.and [leaf .lt, leaf .ge]) } = .ok [] ∧
      taskStore.select { next with filter := some (.or [leaf .lt, leaf .ge]) } =
        .ok [⟨⟨1⟩, 1⟩, ⟨⟨1⟩, 2⟩] := by
  intro scope state target
  let next := (scope.resolve "parent.state" (.select ⟨1⟩)).2
  let tuples : List Tuple := [⟨⟨⟨1⟩, 1⟩, [.row ⟨⟨1⟩, 0⟩]⟩, ⟨⟨⟨1⟩, 2⟩, [.row ⟨⟨1⟩, 1⟩]⟩,
    ⟨⟨⟨1⟩, 3⟩, [.row ⟨⟨1⟩, 2⟩]⟩]
  have resolved : scope.resolve "parent.state" (.select ⟨1⟩) = (.ok target, next) :=
    Prod.ext (by decide +kernel) rfl
  have distinct : state.ConstantsDistinct := by
    intro name variants type_eq
    obtain ⟨-, rfl⟩ := AttributeType.enum.inj type_eq
    exact ⟨by decide, by decide⟩
  have coerced : scope.parser "closed" state = .ok (.enum 1 "closed") := by decide +kernel
  have given : "closed" ≠ scope.options.nullToken := by decide
  have expanded : taskStore.expand next = .ok tuples := by decide +kernel
  have supplied (tuple : Tuple) (member : tuple ∈ tuples) :
      ∃ value, taskStore.Supplies target tuple value := by
    simp only [tuples, List.mem_cons, List.not_mem_nil, or_false] at member
    rcases member with rfl | rfl | rfl
    · exact ⟨.enum 0 "open", by decide +kernel, .inr (.constant rfl)⟩
    · exact ⟨.enum 1 "closed", by decide +kernel, .inr (.constant rfl)⟩
    · exact ⟨.null, by decide +kernel, .inl rfl⟩
  have rows_eq : (tuples.filter (taskStore.read target.path · ≠ .ok .null)).map (·.root) =
      [⟨⟨1⟩, 1⟩, ⟨⟨1⟩, 2⟩] := by decide +kernel
  have not_distinct : next.distinct = false := by decide +kernel
  obtain ⟨leaf, alone, -, -, selected⟩ :=
    comparisons_divide rfl none resolved rfl distinct coerced given nofun
  have answers (filter : Predicate) := selected taskStore { next with filter := some filter } tuples
    expanded supplied
  have either := (answers (.or [leaf .lt, leaf .ge])).2 rfl
  dsimp only at either
  rw [rows_eq, not_distinct, if_neg Bool.false_ne_true] at either
  exact ⟨next, leaf, resolved, rfl, distinct, coerced, given, alone .lessThan .lt "<" rfl rfl,
    (answers _).1 rfl, either⟩

end FilterQuery
