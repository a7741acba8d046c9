import FilterQuery.CompileError
import FilterQuery.Number.Literal
import FilterQuery.Options
import FilterQuery.Schema
import FilterQuery.Temporal.Timestamp
import FilterQuery.Value

/-!
# Reading arguments

An argument of a filter is a text; the type of the attribute it is compared with
says what value it stands for.  An `ArgumentParser` is any such reading.  The usual
one ignores blanks around an argument except where the type is itself textual, and
reads an argument for an entity as one for the identifier of that entity.  Which
texts are dates is left to a `DateReading`; the usual one knows date formats and
timestamps.
-/

namespace FilterQuery

open FilterQuery.Number FilterQuery.Temporal

/-- A reading of arguments as values of attribute types. -/
abbrev ArgumentParser := String → AttributeType → Except CompileError Value

/-- A reading of dates: the instant of a text, in the format that an attribute declares
or, if it declares none, in any other way. -/
abbrev DateReading := Option String → List Char → Option Int

namespace Coercion

/-- The outcome of reading an argument: it is a value, or not of the type. -/
def outcome (argument : String) (type : AttributeType) (value? : Option Value) :
    Except CompileError Value :=
  match value? with
  | some value => .ok value
  | none => .error (.argumentTypeMismatch argument type.name)

/-- Reads a word of ASCII letters in either case. -/
def boolean? (text : String) : Option Bool :=
  match Component.folded text.toList with
  | "true" => some true
  | "false" => some false
  | _ => none

/-- The instant of a text: in the format of the attribute if it has one, and
otherwise as a timestamp or in the first of the formats that fits. -/
def instant? (formats : List DateFormat) : DateReading := fun declared text =>
  match declared with
  | some description => do (← DateFormat.parse? description).instant? text
  | none => (timestamp? text) <|> formats.findSome? (·.instant? text)

/-- The constant of an enumeration with a name. -/
def constant? (variants : List String) (name : String) : Option Value :=
  (variants.findIdx? (· = name)).map fun place => .enum (UInt32.ofNat place) name

/-- Reads an argument, given a reading of dates. -/
def parse (dates : DateReading) (argument : String) :
    AttributeType → Except CompileError Value
  | .integer =>
      outcome argument .integer ((readInt64? (Text.trim argument).toList).map .int)
  | .float =>
      outcome argument .float ((readBinary64? (Text.trim argument).toList).map .float)
  | .boolean => outcome argument .boolean ((boolean? (Text.trim argument)).map .bool)
  | .text => .ok (.text argument)
  | .object _ _ => .ok (.text argument)
  | .temporal format =>
      outcome argument (.temporal format)
        ((dates format (Text.trim argument).toList).map .instant)
  | .enum name variants =>
      outcome argument (.enum name variants) (constant? variants (Text.trim argument))
  | .reference _ identifier => parse dates argument identifier

end Coercion

/-- The reading of arguments with a reading of dates. -/
def ArgumentParser.withDates (dates : DateReading) : ArgumentParser :=
  Coercion.parse dates

/-- The usual reading, in which dates without a format of their own are tried in some
formats. -/
def ArgumentParser.usual (formats : List DateFormat) : ArgumentParser :=
  .withDates (Coercion.instant? formats)

/-- The usual reading with the date formats of options, if these are formats. -/
def ArgumentParser.ofOptions (options : Options) : Except OptionsError ArgumentParser :=
  options.formats.map ArgumentParser.usual

/-- The usual reading with the date formats of the default options. -/
def ArgumentParser.standard : ArgumentParser :=
  ArgumentParser.usual ((Options.formats {}).toOption.getD [])

end FilterQuery
