import FilterQuery.Store.Execution

/-!
# Loops that may fail

A loop runs its body for each element of a list and collects what it yields, until one of the
bodies fails.  It succeeds if they all do, and then a loop over what another one has collected is
the same as a loop inside of it.  An expansion by a join is such a loop over the tuples.

A loop that leaves out elements, or whose body yields less, yields less itself, in the same order.
-/

namespace FilterQuery.Store

variable {α β γ : Type}

/-- Both parts of a computation that succeeds have succeeded. -/
theorem bind_eq_ok_iff {ε : Type} {x : Except ε α} {f : α → Except ε β} {b : β} :
    (x >>= f) = .ok b ↔ ∃ a, x = .ok a ∧ f a = .ok b := by
  cases x with
  | error error => simp [bind, Except.bind]
  | ok a => simp [bind, Except.bind]

/-! ## Loops -/

/-- Runs a body for each element, one after the other, and collects what it yields. -/
def forEach (body : α → Except StoreError (List β)) : List α → Except StoreError (List β)
  | [] => .ok []
  | first :: others => do
      let yielded ← body first
      let rest ← forEach body others
      .ok (yielded ++ rest)

@[simp]
theorem forEach_nil (body : α → Except StoreError (List β)) : forEach body [] = .ok [] :=
  rfl

theorem forEach_cons_eq_ok_iff {body : α → Except StoreError (List β)} {first : α}
    {others : List α} {result : List β} :
    forEach body (first :: others) = .ok result ↔
      ∃ yielded rest, body first = .ok yielded ∧ forEach body others = .ok rest ∧
        yielded ++ rest = result := by
  simp only [forEach, bind_eq_ok_iff, Except.ok.injEq]
  constructor
  · rintro ⟨yielded, first_eq, rest, others_eq, result_eq⟩
    exact ⟨yielded, rest, first_eq, others_eq, result_eq⟩
  · rintro ⟨yielded, rest, first_eq, others_eq, result_eq⟩
    exact ⟨yielded, first_eq, rest, others_eq, result_eq⟩

/-- A loop meets no error if its body meets none for any element. -/
theorem forEach_eq_ok_iff {body : α → Except StoreError (List β)} {elements : List α}
    {result : List β} :
    forEach body elements = .ok result ↔
      ∃ yields : α → List β, (∀ a ∈ elements, body a = .ok (yields a)) ∧
        elements.flatMap yields = result := by
  let yields (a : α) := (body a).toOption.getD []
  have yields_eq {a : α} {yielded : List β} (h : body a = .ok yielded) : yields a = yielded := by
    simp only [yields, h]
    rfl
  constructor
  · intro run
    refine ⟨yields, ?_⟩
    induction elements generalizing result with
    | nil =>
        cases run
        exact ⟨(fun _ member => nomatch member), rfl⟩
    | cons first others ih =>
        rcases forEach_cons_eq_ok_iff.mp run with ⟨yielded, rest, first_eq, others_eq, rfl⟩
        rcases ih others_eq with ⟨bodies, rfl⟩
        have first_yields := yields_eq first_eq
        refine ⟨List.forall_mem_cons.mpr ⟨first_yields ▸ first_eq, bodies⟩, ?_⟩
        rw [List.flatMap_cons, first_yields]
  · rintro ⟨yields, bodies, rfl⟩
    induction elements with
    | nil => rfl
    | cons first others ih =>
        rcases List.forall_mem_cons.mp bodies with ⟨first_eq, others_eq⟩
        exact forEach_cons_eq_ok_iff.mpr
          ⟨yields first, others.flatMap yields, first_eq, ih others_eq, rfl⟩

/-- A loop succeeds if its body does for each element, and yields what the body may yield. -/
theorem exists_forEach {body : α → Except StoreError (List β)} {elements : List α}
    {Good : β → Prop}
    (each : ∀ a ∈ elements, ∃ yielded, body a = .ok yielded ∧ ∀ b ∈ yielded, Good b) :
    ∃ result, forEach body elements = .ok result ∧ ∀ b ∈ result, Good b := by
  induction elements with
  | nil => exact ⟨[], rfl, nofun⟩
  | cons first others ih =>
      rcases List.forall_mem_cons.mp each with ⟨⟨yielded, first_eq, first_good⟩, others_each⟩
      rcases ih others_each with ⟨rest, others_eq, rest_good⟩
      exact ⟨yielded ++ rest, forEach_cons_eq_ok_iff.mpr ⟨_, _, first_eq, others_eq, rfl⟩,
        List.forall_mem_append.mpr ⟨first_good, rest_good⟩⟩

theorem forEach_map (body : β → Except StoreError (List γ)) (f : α → β) (elements : List α) :
    forEach body (elements.map f) = forEach (fun a => body (f a)) elements := by
  induction elements with
  | nil => rfl
  | cons first others ih => rw [List.map_cons, forEach, forEach, ih]

theorem forEach_append_eq_ok_iff {body : α → Except StoreError (List β)} {front back : List α}
    {result : List β} :
    forEach body (front ++ back) = .ok result ↔
      ∃ yielded rest, forEach body front = .ok yielded ∧ forEach body back = .ok rest ∧
        yielded ++ rest = result := by
  induction front generalizing result with
  | nil => simp
  | cons first others ih =>
      simp only [List.cons_append, forEach_cons_eq_ok_iff, ih]
      constructor
      · rintro ⟨yielded, _, first_eq, ⟨middle, rest, others_eq, back_eq, rfl⟩, rfl⟩
        exact ⟨yielded ++ middle, rest, ⟨yielded, middle, first_eq, others_eq, rfl⟩, back_eq,
          List.append_assoc ..⟩
      · rintro ⟨_, rest, ⟨yielded, middle, first_eq, others_eq, rfl⟩, back_eq, rfl⟩
        exact ⟨yielded, middle ++ rest, first_eq, ⟨middle, rest, others_eq, back_eq, rfl⟩,
          (List.append_assoc ..).symm⟩

/-- A loop over what another loop has collected does as one that runs inside of it. -/
theorem forEach_bind_eq_ok_iff {outer : α → Except StoreError (List β)}
    {inner : β → Except StoreError (List γ)} {elements : List α} {result : List γ} :
    (forEach outer elements >>= forEach inner) = .ok result ↔
      forEach (fun a => outer a >>= forEach inner) elements = .ok result := by
  induction elements generalizing result with
  | nil => rfl
  | cons first others ih =>
      simp only [bind_eq_ok_iff] at ih
      simp only [bind_eq_ok_iff, forEach_cons_eq_ok_iff]
      constructor
      · rintro ⟨_, ⟨middle, rest, first_eq, others_eq, rfl⟩, run⟩
        rcases forEach_append_eq_ok_iff.mp run with ⟨front, back, front_eq, back_eq, rfl⟩
        exact ⟨front, back, ⟨middle, first_eq, front_eq⟩, ih.mp ⟨rest, others_eq, back_eq⟩, rfl⟩
      · rintro ⟨front, back, ⟨middle, first_eq, front_eq⟩, run, rfl⟩
        rcases ih.mpr run with ⟨rest, others_eq, back_eq⟩
        exact ⟨middle ++ rest, ⟨middle, rest, first_eq, others_eq, rfl⟩,
          forEach_append_eq_ok_iff.mpr ⟨front, back, front_eq, back_eq, rfl⟩⟩

/-! ## Loops with fewer results -/

variable {body other : α → Except StoreError (List β)} {elements : List α} {result : List β}

/-- A loop without the elements that do not pass a test yields less, if a test of what the body
yields tells from which elements it comes. -/
theorem forEach_filter (run : forEach body elements = .ok result) {kept : α → Bool}
    {test : β → Bool} (from_kept : ∀ a ∈ elements, ∀ yielded, body a = .ok yielded →
      ∀ b ∈ yielded, test b = kept a) :
    forEach body (elements.filter kept) = .ok (result.filter test) := by
  rcases forEach_eq_ok_iff.mp run with ⟨yields, bodies, rfl⟩
  refine forEach_eq_ok_iff.mpr
    ⟨yields, fun a member => bodies a (List.mem_filter.mp member).1, ?_⟩
  clear run
  induction elements with
  | nil => rfl
  | cons first others ih =>
      rcases List.forall_mem_cons.mp bodies with ⟨first_eq, others_eq⟩
      rcases List.forall_mem_cons.mp from_kept with ⟨first_kept, others_kept⟩
      have tests : ∀ b ∈ yields first, test b = kept first := first_kept _ first_eq
      rw [List.flatMap_cons, List.filter_append, ← ih others_kept others_eq, List.filter_cons]
      cases kept_eq : kept first with
      | false =>
          have none_left : (yields first).filter test = [] :=
            List.filter_eq_nil_iff.mpr fun b member => by simp [tests b member, kept_eq]
          simp [none_left]
      | true =>
          have all_left : (yields first).filter test = yields first :=
            List.filter_eq_self.mpr fun b member => by rw [tests b member, kept_eq]
          simp [all_left]

/-- A loop yields less if its body does so for each element. -/
theorem forEach_of_body (run : forEach body elements = .ok result) {test : β → Bool}
    (less : ∀ a ∈ elements, ∀ yielded, body a = .ok yielded →
      other a = .ok (yielded.filter test)) :
    forEach other elements = .ok (result.filter test) := by
  rcases forEach_eq_ok_iff.mp run with ⟨yields, bodies, rfl⟩
  exact forEach_eq_ok_iff.mpr
    ⟨fun a => (yields a).filter test, fun a member => less a member _ (bodies a member),
      (List.filter_flatMap ..).symm⟩

/-! ## Expansion -/

theorem extendAll_eq_forEach (store : Store) (tuples : List Tuple) (join : Join) :
    store.extendAll tuples join = forEach (store.extend join) tuples := by
  rw [extendAll]
  induction tuples with
  | nil => rfl
  | cons tuple tuples ih =>
      rw [forEach, ← ih, List.mapM_cons]
      cases store.extend join tuple with
      | error error => rfl
      | ok extended => cases tuples.mapM (store.extend join) <;> rfl

end FilterQuery.Store
