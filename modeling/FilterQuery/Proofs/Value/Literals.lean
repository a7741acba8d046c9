import FilterQuery.Coercion
import FilterQuery.Proofs.Value.RoundTrip

/-!
# Literals that survive their JSON text

Arguments of integer, boolean and textual types and constants of enumerations are read as
values that come through their JSON text unchanged.  For floats and dates it depends on
the value: the last day that a date of four digits can name is already too far from 1970.
-/

namespace FilterQuery

/-- The type as which arguments are read: that of the identifier for an entity. -/
def AttributeType.literalType : AttributeType → AttributeType
  | .reference _ identifier => identifier.literalType
  | type => type

namespace Coercion

variable {dates : DateReading} {argument : String} {value : Value}

theorem outcome_eq_ok_iff {type : AttributeType} {value? : Option Value} :
    outcome argument type value? = .ok value ↔ value? = some value := by
  cases value? <;> simp [outcome]

/-- Only floats and dates can be lost in the text of a literal. -/
theorem survives_of_parse {type : AttributeType} (h : parse dates argument type = .ok value) :
    value.Survives ∨ type.literalType = .float ∨
      ∃ format, type.literalType = .temporal format := by
  induction type with
  | integer =>
      obtain ⟨n, -, rfl⟩ := Option.map_eq_some_iff.mp (outcome_eq_ok_iff.mp h)
      exact .inl trivial
  | float => exact .inr (.inl rfl)
  | boolean =>
      obtain ⟨b, -, rfl⟩ := Option.map_eq_some_iff.mp (outcome_eq_ok_iff.mp h)
      exact .inl trivial
  | text =>
      cases h
      exact .inl trivial
  | temporal format => exact .inr (.inr ⟨format, rfl⟩)
  | enum name variants =>
      obtain ⟨place, -, rfl⟩ := Option.map_eq_some_iff.mp (outcome_eq_ok_iff.mp h)
      exact .inl trivial
  | object typeName comparable =>
      cases h
      exact .inl trivial
  | reference entity identifier ih => exact ih h

end Coercion

namespace ArgumentParser

theorem eq_ok_of_toOption {result : Except CompileError Value} {value : Value}
    (h : result.toOption = some value) : result = .ok value := by
  cases result with
  | ok found => rw [Option.some.inj h]
  | error e => cases h

theorem standard_year9999 :
    standard "9999-12-31" (.temporal none) = .ok (.instant 253402214400000000000) :=
  eq_ok_of_toOption (by decide +kernel)

/-- Not every literal is read back from its text. -/
theorem not_forall_literal_reads_back :
    ¬∀ argument type value, standard argument type = .ok value →
      Value.ofJsonText? value.toJsonText = some value := by
  intro hall
  have hback := hall _ _ _ standard_year9999
  rw [Value.ofJsonText?_toJsonText, Value.reread_eq_some_iff] at hback
  exact absurd hback.2 (by decide)

end ArgumentParser

end FilterQuery
