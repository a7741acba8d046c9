import FilterQuery.Number.Shortest
import FilterQuery.Text.Quoted
import FilterQuery.Value

/-!
# The text of a value

How a literal is shown in the text of a filter.
-/

namespace FilterQuery.Value

open FilterQuery.Number

/-- Floats are shown with all their digits, never with an exponent, and without
a point when they are whole; of two equally near decimals the larger one is
shown. -/
def floatLayout : NumberLayout where
  tie := .up
  positional := fun _ => true
  wholeSuffix := ""
  infinite := "inf"
  nan := "NaN"

/-- The text of a value. -/
def display : Value → String
  | .null => "NULL"
  | .bool true => "true"
  | .bool false => "false"
  | .int n => toString n.toInt
  | .float x => floatLayout.write x
  | .text s => Text.quoted s
  | .enum _ name => name
  | .instant nanos => "TIMESTAMP(" ++ toString nanos ++ ")"

end FilterQuery.Value
