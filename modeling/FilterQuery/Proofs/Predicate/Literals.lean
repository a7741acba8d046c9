import FilterQuery.Proofs.Json.ExactNumbers
import FilterQuery.Proofs.Predicate.RoundTrip
import FilterQuery.Proofs.Value.Literals

/-!
# Compiled literals and their JSON text

The value of an accepted argument is read back from its JSON text, with kind and content in
either order, exactly if it survives; so is a predicate if all its values do.  Every value of
an exact type survives, every float of few digits, and every instant of 64 bits.
-/

namespace FilterQuery

open FilterQuery.Json (IsShort)
open FilterQuery.Number (Binary64)

namespace ArgumentParser

/-- Literals and predicates are read back from their text exactly if their values survive
it, whatever is read as a date; instants that do not survive are not read at all. -/
theorem reads_back_iff_survives (dates : DateReading) :
    (∀ argument type value, withDates dates argument type = .ok value →
      (Value.ofJsonText? value.toJsonText = some value ↔ value.Survives) ∧
      (Value.ofJsonText? value.toJsonContentFirst.write = some value ↔ value.Survives) ∧
      (value.Survives ∨ type.literalType = .float ∨
        ∃ format, type.literalType = .temporal format)) ∧
    (∀ x : Binary64, IsShort x → (Value.float x).Survives) ∧
    (∀ nanos, (Value.instant nanos).Survives ∨
      Value.ofJsonText? (Value.instant nanos).toJsonText = none) ∧
    ∀ predicate : Predicate,
      predicate.nesting ≤ Predicate.deepestNesting → predicate.FitsWord →
        (Predicate.ofJsonText? predicate.toJsonText = some predicate ↔ predicate.Survives) := by
  refine ⟨fun argument type value hparse => ⟨?_, ?_, Coercion.survives_of_parse hparse⟩,
    fun x hshort => hshort.rereadReal_eq, fun nanos => ?_, fun predicate hnesting hfits =>
      Predicate.ofJsonText?_toJsonText_iff hnesting hfits⟩
  · rw [Value.ofJsonText?_toJsonText, Value.reread_eq_some_iff]
  · rw [Value.ofJsonText?_write_toJsonContentFirst, Value.reread_eq_some_iff]
  · rw [Value.ofJsonText?_toJsonText]
    exact (Classical.em _).imp_right fun hlost => if_neg hlost

/-- Two and a half. -/
def twoAndHalf : Binary64 :=
  ⟨0x4004000000000000⟩

theorem isShort_twoAndHalf : IsShort twoAndHalf where
  finite := by decide +kernel
  significand_lt := by decide +kernel
  scale_le := by decide +kernel

theorem usual_twoAndHalf : usual [] "2.5" .float = .ok (.float twoAndHalf) :=
  eq_ok_of_toOption (by decide +kernel)

/-- A group of a comparison with the float and a list of an instant. -/
def samplePredicate : Predicate :=
  .and [.compare ⟨.join 0, ["price"]⟩ .gt (.float twoAndHalf),
    .isIn ⟨.root, ["since"]⟩ [.instant 1700000000123456789] false]

theorem reads_back_iff_survives_twoAndHalf :
    usual [] "2.5" .float = .ok (.float twoAndHalf) ∧
      Value.ofJsonText? (Value.float twoAndHalf).toJsonText = some (.float twoAndHalf) ∧
      Value.ofJsonText? (Value.float twoAndHalf).toJsonContentFirst.write =
        some (.float twoAndHalf) ∧
      Predicate.ofJsonText? samplePredicate.toJsonText = some samplePredicate := by
  obtain ⟨hvalues, hfloats, -, hpredicates⟩ := reads_back_iff_survives (Coercion.instant? [])
  have hshort := hfloats twoAndHalf isShort_twoAndHalf
  obtain ⟨hvalue, hcontentFirst, -⟩ := hvalues "2.5" .float _ usual_twoAndHalf
  refine ⟨usual_twoAndHalf, hvalue.mpr hshort, hcontentFirst.mpr hshort,
    (hpredicates samplePredicate (by decide) ?_).mpr ?_⟩
  · intro leaf hleaf path hpath
    simp only [samplePredicate, Predicate.leaves, Predicate.leavesOfChildren, List.append_nil,
      List.mem_append, List.mem_singleton] at hleaf
    rcases hleaf with rfl | rfl
    · cases hpath
      exact (by decide : (0 : Int) < Number.ordinalLimit)
    · cases hpath
      trivial
  · intro leaf hleaf value hvalue
    simp only [samplePredicate, Predicate.leaves, Predicate.leavesOfChildren, List.append_nil,
      List.mem_append, List.mem_singleton] at hleaf
    rcases hleaf with rfl | rfl
    · rw [List.mem_singleton.mp hvalue]
      exact hshort
    · rw [List.mem_singleton.mp hvalue]
      exact ⟨by decide, by decide⟩

end ArgumentParser

end FilterQuery
