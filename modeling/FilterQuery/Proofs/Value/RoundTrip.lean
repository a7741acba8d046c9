import FilterQuery.Proofs.Json.RoundTrip
import FilterQuery.Value.Json

/-!
# Reading written values

Kind and content of a value are read back in either order.  Two kinds of content can be
lost: instants that no word of 64 bits holds, signed or unsigned, which are not read at
all, and reals, for which the number read from the text is the value if it is the same
number.
-/

namespace FilterQuery.Value

open FilterQuery.Json FilterQuery.Number

/-! ## What is read -/

/-- The JSON form with the content in front of the kind. -/
def toJsonContentFirst (value : Value) : Json :=
  match value.toJson with
  | .object members => .object members.reverse
  | json => json

/-- What is read from the text of a value. -/
def reread : Value → Option Value
  | .float x => (rereadReal x).real?.map .float
  | .instant nanos =>
      if -wordLimit ≤ nanos ∧ nanos < 2 * wordLimit then some (.instant nanos) else none
  | value => some value

/-- Whether a value comes through its text unchanged: a real has to be the number that is
read from it, and an instant has to fit a word of 64 bits, signed or unsigned. -/
def Survives : Value → Prop
  | .float x => rereadReal x = .real x
  | .instant nanos => -wordLimit ≤ nanos ∧ nanos < 2 * wordLimit
  | _ => True

/-- A real that is read is read as a real. -/
theorem real?_rereadReal_eq_some_iff (x y : Binary64) :
    (rereadReal x).real? = some y ↔ rereadReal x = .real y := by
  unfold rereadReal
  split
  · have hinexact := Numeral.value_ofReal_isInexact x
    cases h : (Numeral.ofReal x).value with
    | real z => simp [real?]
    | unreadable => simp [real?]
    | _ =>
        rw [h] at hinexact
        exact hinexact.elim
  · simp [real?]

theorem reread_eq_some_iff (value : Value) : value.reread = some value ↔ value.Survives := by
  cases value with
  | float x => simp [reread, Survives, real?_rereadReal_eq_some_iff]
  | instant nanos => simp [reread, Survives]
  | _ => simp [reread, Survives]

/-! ## Kind and content -/

/-- The name of the kind in the JSON form. -/
def kind : Value → String
  | .null => "Null"
  | .bool _ => "Bool"
  | .int _ => "Int"
  | .float _ => "Float"
  | .text _ => "String"
  | .enum _ _ => "Enum"
  | .instant _ => "DateTime"

/-- The content in the JSON form; null has none, but may have a null there. -/
def content : Value → Json
  | .null => .null
  | .bool b => .bool b
  | .int n => .whole n.toInt
  | .float x => .real x
  | .text s => .text s
  | .enum ordinal name => .object [("ordinal", .whole ordinal.toNat), ("name", .text name)]
  | .instant nanos => .whole nanos

theorem toJson_eq_tagged {value : Value} (h : value ≠ .null) :
    value.toJson = tagged value.kind value.content := by
  cases value with
  | null => exact absurd rfl h
  | _ => rfl

theorem ofJson?_tagged (kind : String) (content : Json) :
    ofJson? (tagged kind content) = ofContent? kind content :=
  rfl

/-- Content in front of its kind is kept only if all of it is readable. -/
theorem ofJson?_contentFirst (kind : String) (content : Json) :
    ofJson? (.object [("v", content), ("t", .text kind)]) =
      if content.isReadable then ofContent? kind content else none := by
  have hfirst : ofJson? (.object [("v", content), ("t", .text kind)]) =
      if true && !content.isReadable then none else ofContent? kind content := rfl
  rw [hfirst]
  cases content.isReadable <;> rfl

theorem reread_tagged {room : Nat} (hroom : room ≠ 0) (kind : String) (content : Json) :
    (tagged kind content).reread room = tagged kind (content.reread (room - 1)) :=
  if_neg hroom

theorem reread_contentFirst {room : Nat} (hroom : room ≠ 0) (kind : String) (content : Json) :
    (Json.object [("v", content), ("t", .text kind)]).reread room =
      .object [("v", content.reread (room - 1)), ("t", .text kind)] :=
  if_neg hroom

/-! ## Content -/

theorem wholeWithin?_of_fits {lower upper n : Int} (hlower : lower ≤ n) (hupper : n < upper) :
    (Json.whole n).wholeWithin? lower upper = some n :=
  if_pos ⟨hlower, hupper⟩

theorem ordinal_fits (ordinal : UInt32) : (ordinal.toNat : Int) < ordinalLimit := by
  have hlt := ordinal.toNat_lt
  unfold ordinalLimit
  omega

/-- Words of 64 bits are read back. -/
theorem value_ofWhole_toInt (n : Int64) : (Numeral.ofWhole n.toInt).value = .whole n.toInt := by
  have lower := n.le_toInt
  have upper := n.toInt_lt
  exact Numeral.value_ofWhole (by unfold wordLimit; omega) (by unfold wordLimit; omega)

/-- Places of constants are read back. -/
theorem value_ofWhole_ordinal (ordinal : UInt32) :
    (Numeral.ofWhole ordinal.toNat).value = .whole ordinal.toNat := by
  have hlt := ordinal.toNat_lt
  exact Numeral.value_ofWhole (by unfold wordLimit; omega) (by unfold wordLimit; omega)

theorem enumOfJson?_members (n : Int) (name : String) :
    enumOfJson? (.object [("ordinal", .whole n), ("name", .text name)]) =
      ((Json.whole n).wholeWithin? 0 ordinalLimit).map fun n =>
        .enum (UInt32.ofNat n.toNat) name := by
  simp only [enumOfJson?, Json.unique?, Json.text?]
  cases h : (Json.whole n).wholeWithin? 0 ordinalLimit with
  | none => simp [h]
  | some n => simp [h]

theorem enumOfJson?_ordinal (ordinal : UInt32) (name : String) :
    enumOfJson? (.object [("ordinal", .whole ordinal.toNat), ("name", .text name)]) =
      some (.enum ordinal name) := by
  rw [enumOfJson?_members, wholeWithin?_of_fits (Int.natCast_nonneg ordinal.toNat)
    (ordinal_fits ordinal), Option.map_some, Int.toNat_natCast, UInt32.ofNat_toNat]

/-- The content is read as the value, if it is not lost. -/
theorem ofContent?_reread_content (value : Value) {room : Nat} (hroom : room ≠ 0) :
    ofContent? value.kind (value.content.reread room) = value.reread := by
  cases value with
  | null => rfl
  | bool b => rfl
  | int n =>
      have lower := n.le_toInt
      have upper := n.toInt_lt
      have hword : -wordLimit ≤ n.toInt ∧ n.toInt < wordLimit := by
        unfold wordLimit
        omega
      simp only [kind, content, Json.reread, value_ofWhole_toInt, ofContent?,
        wholeWithin?_of_fits hword.1 hword.2, Option.map_some, Int64.ofInt_toInt, reread]
  | float x => rfl
  | text s => rfl
  | enum ordinal name =>
      simp only [kind, content, Json.reread, hroom, if_false, rereadMembers,
        value_ofWhole_ordinal, ofContent?, enumOfJson?_ordinal, reread]
  | instant nanos =>
      simp only [kind, content, Json.reread, ofContent?, reread]
      split
      · rename_i hfits
        rw [Numeral.value_ofWhole hfits.1 hfits.2]
        rfl
      · rename_i hbeyond
        have hinexact := Numeral.value_ofWhole_isInexact hbeyond
        cases h : (Numeral.ofWhole nanos).value with
        | real x => rfl
        | unreadable => rfl
        | _ =>
            rw [h] at hinexact
            exact hinexact.elim

/-- No value is read from content that is not readable. -/
theorem reread_eq_none {value : Value} {room : Nat} (hroom : room ≠ 0)
    (h : (value.content.reread room).isReadable = false) : value.reread = none := by
  cases value with
  | null => cases h
  | bool b => cases h
  | int n =>
      rw [content, Json.reread, value_ofWhole_toInt] at h
      cases h
  | float x =>
      rw [content, Json.reread] at h
      rw [reread]
      cases hreal : rereadReal x with
      | whole n =>
          rw [hreal] at h
          cases h
      | real y =>
          rw [hreal] at h
          cases h
      | _ => rfl
  | text s => cases h
  | enum ordinal name =>
      simp only [content, Json.reread, hroom, if_false, rereadMembers, value_ofWhole_ordinal] at h
      cases h
  | instant nanos =>
      rw [content, Json.reread] at h
      refine if_neg fun hfits => ?_
      rw [Numeral.value_ofWhole hfits.1 hfits.2] at h
      cases h

/-! ## Values -/

/-- A value is read from its JSON form as what is left of it. -/
theorem ofJson?_reread_toJson (value : Value) {room : Nat} (hroom : 2 ≤ room) :
    ofJson? (value.toJson.reread room) = value.reread := by
  by_cases hnull : value = .null
  · rw [hnull, toJson, Json.reread, if_neg (by omega)]
    rfl
  · rw [toJson_eq_tagged hnull, reread_tagged (by omega), ofJson?_tagged,
      ofContent?_reread_content value (by omega)]

/-- The order of kind and content makes no difference. -/
theorem ofJson?_reread_toJsonContentFirst (value : Value) {room : Nat} (hroom : 2 ≤ room) :
    ofJson? (value.toJsonContentFirst.reread room) = value.reread := by
  by_cases hnull : value = .null
  · have hswap : value.toJsonContentFirst = value.toJson := by
      rw [hnull]
      rfl
    rw [hswap, ofJson?_reread_toJson value hroom]
  · have hswap : value.toJsonContentFirst =
        .object [("v", value.content), ("t", .text value.kind)] := by
      rw [toJsonContentFirst, toJson_eq_tagged hnull]
      rfl
    have hcontent := ofContent?_reread_content value (show room - 1 ≠ 0 by omega)
    rw [hswap, reread_contentFirst (by omega), ofJson?_contentFirst]
    split
    · exact hcontent
    · rename_i hunreadable
      exact (reread_eq_none (by omega) (Bool.eq_false_iff.mpr hunreadable)).symm

/-- What is read from the text of a value. -/
theorem ofJsonText?_toJsonText (value : Value) : ofJsonText? value.toJsonText = value.reread := by
  rw [ofJsonText?, toJsonText, parse?_write]
  exact ofJson?_reread_toJson value (by decide)

/-- What is read from the text of a value with the content in front of the kind. -/
theorem ofJsonText?_write_toJsonContentFirst (value : Value) :
    ofJsonText? value.toJsonContentFirst.write = value.reread := by
  rw [ofJsonText?, parse?_write]
  exact ofJson?_reread_toJsonContentFirst value (by decide)

end FilterQuery.Value
