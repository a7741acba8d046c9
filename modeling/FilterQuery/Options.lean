import FilterQuery.Temporal.Format
import FilterQuery.Text.Blank
import FilterQuery.Toml.Document

/-!
# Options of a compile

The options say which argument stands for a missing value, in which formats dates
without a format of their own are tried, and whether compiled queries give each
row once.  They are read from TOML; a key that is absent keeps its default and a
key that is no option is passed over.
-/

namespace FilterQuery

structure Options where
  nullToken : String := "null"
  dateFormats : List String :=
    ["[year]-[month]-[day]T[hour]:[minute]:[second]",
      "[year]-[month]-[day] [hour]:[minute]:[second]", "[year]-[month]-[day]"]
  distinct : Bool := false
  deriving DecidableEq, Repr

/-- Why options are refused. -/
inductive OptionsError
  /-- The file cannot be read. -/
  | unreadable (path : String)
  /-- The content of the file does not describe options. -/
  | malformedFile (path : String)
  /-- The text does not describe options. -/
  | malformedText
  | blankNullToken
  | invalidDateFormat (description : String)
  deriving DecidableEq, Repr

namespace OptionsError

/-- The option at fault, if a single one is. -/
def key? : OptionsError → Option String
  | .blankNullToken => some "null_token"
  | .invalidDateFormat _ => some "date_formats"
  | _ => none

/-- What is wrong with the option at fault.  Why a text is no date format is said by the
cause. -/
def reason (cause : String) : OptionsError → String
  | .blankNullToken => "must not be blank"
  | .invalidDateFormat description => "'" ++ description ++ "': " ++ cause
  | .unreadable _ | .malformedFile _ | .malformedText => cause

/-- What has failed. -/
def failure : OptionsError → String
  | .unreadable path => "failed to read compiler config " ++ path
  | .malformedFile path => "failed to parse compiler config " ++ path
  | .malformedText => "failed to parse compiler config"
  | .blankNullToken => "config key 'null_token' is invalid"
  | .invalidDateFormat _ => "config key 'date_formats' is invalid"

/-- The text of the error, given the cause: what there is to say of a file that cannot be
read, of a text that does not describe options, or of one that is no date format. -/
def message (error : OptionsError) (cause : String) : String :=
  error.failure ++ ": " ++ error.reason cause

end OptionsError

namespace Options

/-- The date formats of some descriptions, all of which have to be formats. -/
def readFormats : List String → Except OptionsError (List Temporal.DateFormat)
  | [] => .ok []
  | description :: descriptions =>
      match Temporal.DateFormat.parse? description with
      | none => .error (.invalidDateFormat description)
      | some format => do
          let formats ← readFormats descriptions
          .ok (format :: formats)

/-- The date formats of the options. -/
def formats (options : Options) : Except OptionsError (List Temporal.DateFormat) :=
  readFormats options.dateFormats

/-- Checks the null token and then the date formats. -/
def validate (options : Options) : Except OptionsError Unit :=
  if Text.isAllBlank options.nullToken then .error .blankNullToken
  else options.formats.map fun _ => ()

/-! ## Reading options -/

/-- The text of an entry. -/
def textEntry? : Toml.Entry → Option String
  | .value (.text s) => some s
  | _ => none

/-- The truth value of an entry. -/
def booleanEntry? : Toml.Entry → Option Bool
  | .value (.boolean b) => some b
  | _ => none

/-- The texts of an array. -/
def textsEntry? : Toml.Entry → Option (List String)
  | .value (.array items) => items.mapM fun item => textEntry? (.value item)
  | _ => none

/-- The option of a key: its default if the key is absent, and nothing if its entry is
of another kind. -/
def entryOr {α : Type} (read : Toml.Entry → Option α) (default : α) (entries : Toml.Entries)
    (key : String) : Option α :=
  match entries.get? key with
  | none => some default
  | some entry => read entry

/-- The options of the entries of a document. -/
def ofEntries? (entries : Toml.Entries) : Option Options := do
  let default : Options := {}
  pure {
    nullToken := ← entryOr textEntry? default.nullToken entries "null_token"
    dateFormats := ← entryOr textsEntry? default.dateFormats entries "date_formats"
    distinct := ← entryOr booleanEntry? default.distinct entries "distinct" }

/-- Reads and checks the options of a document; `malformed` is the error for a text
that describes none. -/
def read (malformed : OptionsError) (document : String) : Except OptionsError Options :=
  match (Toml.parse? document).bind ofEntries? with
  | none => .error malformed
  | some options => options.validate.map fun _ => options

/-- The options of a text. -/
def ofText (document : String) : Except OptionsError Options :=
  read .malformedText document

/-- The options of a file, given its content if it has been read. -/
def ofFile (path : String) (content : Option String) : Except OptionsError Options :=
  match content with
  | none => .error (.unreadable path)
  | some document => read (.malformedFile path) document

end Options

end FilterQuery
