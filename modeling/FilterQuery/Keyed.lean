/-!
# Keyed lists

A list of pairs read as a table: the entry of a key is the value of its first
pair.  Putting an entry replaces the value in place or adds a pair at the end,
so a table that is only built by `put` holds each key once, in order of arrival.
-/

namespace FilterQuery

/-- A table from keys to values. -/
abbrev Keyed (κ α : Type) := List (κ × α)

namespace Keyed

variable {κ α : Type} [DecidableEq κ]

/-- The entry of a key. -/
def get? : Keyed κ α → κ → Option α
  | [], _ => none
  | (key, value) :: table, k => if key = k then some value else get? table k

/-- The table with the given entry. -/
def put : Keyed κ α → κ → α → Keyed κ α
  | [], k, v => [(k, v)]
  | (key, value) :: table, k, v =>
      if key = k then (key, v) :: table else (key, value) :: put table k v

/-- The table without the entry of a key. -/
def erase (table : Keyed κ α) (k : κ) : Keyed κ α :=
  table.filter fun entry => entry.1 ≠ k

@[simp]
theorem get?_nil (k : κ) : get? ([] : Keyed κ α) k = none :=
  rfl

theorem mem_of_get?_eq_some {table : Keyed κ α} {k : κ} {v : α} (h : get? table k = some v) :
    (k, v) ∈ table := by
  induction table with
  | nil => cases h
  | cons entry table ih =>
      rw [get?] at h
      split at h
      · rename_i same
        cases h
        simp [← same]
      · exact List.mem_cons_of_mem _ (ih h)

theorem get?_put (table : Keyed κ α) (k k' : κ) (v : α) :
    get? (put table k v) k' = if k = k' then some v else get? table k' := by
  induction table with
  | nil => simp [put, get?]
  | cons entry table ih =>
      by_cases h : entry.1 = k
      · subst h
        by_cases h' : entry.1 = k' <;> simp [put, get?, h']
      · by_cases h' : entry.1 = k'
        · subst h'
          simp [put, get?, h, Ne.symm h]
        · simp [put, get?, h, h', ih]

@[simp]
theorem get?_put_self (table : Keyed κ α) (k : κ) (v : α) : get? (put table k v) k = some v := by
  simp [get?_put]

theorem get?_put_of_ne {k k' : κ} (h : k ≠ k') (table : Keyed κ α) (v : α) :
    get? (put table k v) k' = get? table k' := by
  simp [get?_put, h]

theorem get?_erase (table : Keyed κ α) (k k' : κ) :
    get? (erase table k) k' = if k = k' then none else get? table k' := by
  induction table with
  | nil => simp [erase]
  | cons entry table ih =>
      unfold erase at ih ⊢
      by_cases h : entry.1 = k
      · subst h
        by_cases h' : entry.1 = k' <;> simp_all [get?]
      · by_cases h' : entry.1 = k'
        · subst h'
          simp [get?, h, Ne.symm h]
        · simpa [get?, h, h'] using ih

end Keyed

end FilterQuery
