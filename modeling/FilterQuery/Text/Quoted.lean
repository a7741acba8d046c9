/-!
# Quoted text

A text literal stands between single quotes; a quote inside it is written twice.
-/

namespace FilterQuery.Text

/-- The characters of a text with every quote written twice. -/
def doubleQuotes : List Char → List Char
  | [] => []
  | c :: rest => if c = '\'' then '\'' :: '\'' :: doubleQuotes rest else c :: doubleQuotes rest

/-- The literal of a text. -/
def quoted (text : String) : String :=
  "'" ++ String.ofList (doubleQuotes text.toList) ++ "'"

end FilterQuery.Text
