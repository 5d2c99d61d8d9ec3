import StateTransition.Quoted

/-! Why a text is not the JSON that was wanted, and where it stops being that. -/
namespace StateTransition

namespace Json

/-- What a text is inside of when it ends too early. -/
inductive Part where
  | list
  | object
  | string
  | value
  deriving DecidableEq, Repr

inductive Found where
  | null
  | boolean (b : Bool)
  | integer (n : Int)
  | fraction (numeral : String)
  | text (s : String)
  | list
  | object
  deriving DecidableEq, Repr

inductive Cause where
  | unfinished (part : Part)
  | colonExpected
  | listCommaOrEndExpected
  | objectCommaOrEndExpected
  | wordExpected
  | valueExpected
  | nameExpected
  | invalidEscape
  | invalidNumber
  | numberOutOfRange
  | controlCharacter
  | loneSurrogate
  | surrogateExpected
  | trailingComma
  | trailingText
  | wrongType (found : Found) (expected : String)
  | wrongValue (found : Found) (expected : String)
  | repeatedField (name : String)
  /-- A text that does not spell what its place calls for. -/
  | refused (reason : String)
  deriving DecidableEq, Repr

/-- A fault and its place: the line, and how many bytes into it. -/
structure Fault where
  cause : Cause
  line : Nat
  column : Nat
  deriving DecidableEq, Repr

def Part.message : Part → String
  | .list => "a list"
  | .object => "an object"
  | .string => "a string"
  | .value => "a value"

def Found.message : Found → String
  | .null => "null"
  | .boolean b => s!"boolean `{b}`"
  | .integer n => s!"integer `{n}`"
  | .fraction numeral => s!"floating point `{numeral}`"
  | .text s => "string " ++ quoteText s
  | .list => "sequence"
  | .object => "map"

def Cause.message : Cause → String
  | .unfinished part => "EOF while parsing " ++ part.message
  | .colonExpected => "expected `:`"
  | .listCommaOrEndExpected => "expected `,` or `]`"
  | .objectCommaOrEndExpected => "expected `,` or `\x7d`"
  | .wordExpected => "expected ident"
  | .valueExpected => "expected value"
  | .nameExpected => "key must be a string"
  | .invalidEscape => "invalid escape"
  | .invalidNumber => "invalid number"
  | .numberOutOfRange => "number out of range"
  | .controlCharacter =>
    "control character (\\u0000-\\u001F) found while parsing a string"
  | .loneSurrogate => "lone leading surrogate in hex escape"
  | .surrogateExpected => "unexpected end of hex escape"
  | .trailingComma => "trailing comma"
  | .trailingText => "trailing characters"
  | .wrongType found expected => s!"invalid type: {found.message}, expected {expected}"
  | .wrongValue found expected => s!"invalid value: {found.message}, expected {expected}"
  | .repeatedField name => s!"duplicate field `{name}`"
  | .refused reason => reason

def Fault.message (fault : Fault) : String :=
  s!"{fault.cause.message} at line {fault.line} column {fault.column}"

instance : ToString Fault := ⟨Fault.message⟩

end Json

end StateTransition
