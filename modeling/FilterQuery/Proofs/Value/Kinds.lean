import FilterQuery.Proofs.Value.Literals

/-!
# The kinds of literals

The usual reading gives every argument a value of the kind that the type of the attribute asks
for: never a missing value, only finite floats, and only constants at the places that the
enumeration gives them.  Any reading of dates will do.
-/

namespace FilterQuery

/-- The values that attributes of a type are compared with. -/
inductive AttributeType.Admits : AttributeType → Value → Prop
  | int (n : Int64) : Admits .integer (.int n)
  | float {x : Number.Binary64} (finite : x.isFinite = true) : Admits .float (.float x)
  | bool (b : Bool) : Admits .boolean (.bool b)
  | text (s : String) : Admits .text (.text s)
  | object {typeName : String} {comparable : Bool} (s : String) :
      Admits (.object typeName comparable) (.text s)
  | instant {format : Option String} (nanos : Int) : Admits (.temporal format) (.instant nanos)
  | constant {name constant : String} {variants : List String} {ordinal : UInt32}
      (found : variants[ordinal.toNat]? = some constant) :
      Admits (.enum name variants) (.enum ordinal constant)
  | reference {entity : String} {identifier : AttributeType} {value : Value}
      (admits : Admits identifier value) : Admits (.reference entity identifier) value

/-- A missing value is of no kind. -/
theorem AttributeType.Admits.ne_null {type : AttributeType} {value : Value}
    (admits : type.Admits value) : value ≠ .null := by
  induction admits with
  | reference _ ih => exact ih
  | _ => nofun

/-- Enumerations whose constants can be told apart by their places. -/
def AttributeType.ConstantsFit : AttributeType → Prop
  | .enum _ variants => variants.length < UInt32.size
  | .reference _ identifier => identifier.ConstantsFit
  | _ => True

namespace Coercion

theorem isFinite_of_readBinary64?_eq_some {text : List Char} {x : Number.Binary64}
    (h : Number.readBinary64? text = some x) : x.isFinite = true := by
  unfold Number.readBinary64? at h
  simp only [Option.bind_eq_bind, Option.bind_eq_some_iff] at h
  rcases h with ⟨⟨digits, places⟩, -, exponent, -, h⟩
  split at h
  · rename_i finite
    cases h
    exact finite
  · cases h

/-- A constant is found at its place. -/
theorem getElem?_of_constant?_eq_some {variants : List String} {name : String} {value : Value}
    (fit : variants.length < UInt32.size) (h : constant? variants name = some value) :
    ∃ ordinal : UInt32, value = .enum ordinal name ∧ variants[ordinal.toNat]? = some name := by
  obtain ⟨place, place_eq, rfl⟩ := Option.map_eq_some_iff.mp h
  obtain ⟨inside, same, -⟩ := List.findIdx?_eq_some_iff_getElem.mp place_eq
  have number_eq : (UInt32.ofNat place).toNat = place :=
    UInt32.toNat_ofNat_of_lt' (Nat.lt_trans inside fit)
  refine ⟨_, rfl, ?_⟩
  rw [number_eq, List.getElem?_eq_getElem inside, of_decide_eq_true same]

/-- An argument is read as a value of the kind that its type asks for, whatever is read as a
date. -/
theorem admits_of_parse {dates : DateReading} {argument : String} {value : Value}
    {type : AttributeType} (fit : type.ConstantsFit)
    (h : parse dates argument type = .ok value) : type.Admits value := by
  induction type with
  | integer =>
      obtain ⟨n, -, rfl⟩ := Option.map_eq_some_iff.mp (outcome_eq_ok_iff.mp h)
      exact .int n
  | float =>
      obtain ⟨x, read, rfl⟩ := Option.map_eq_some_iff.mp (outcome_eq_ok_iff.mp h)
      exact .float (isFinite_of_readBinary64?_eq_some read)
  | boolean =>
      obtain ⟨b, -, rfl⟩ := Option.map_eq_some_iff.mp (outcome_eq_ok_iff.mp h)
      exact .bool b
  | text =>
      cases h
      exact .text argument
  | temporal format =>
      obtain ⟨nanos, -, rfl⟩ := Option.map_eq_some_iff.mp (outcome_eq_ok_iff.mp h)
      exact .instant nanos
  | enum name variants =>
      obtain ⟨ordinal, rfl, found⟩ :=
        getElem?_of_constant?_eq_some fit (outcome_eq_ok_iff.mp h)
      exact .constant found
  | object typeName comparable =>
      cases h
      exact .object argument
  | reference entity identifier ih => exact .reference (ih fit h)

end Coercion

end FilterQuery
