import Chip8.Text.Quoted

/-! # What can be wrong with a JSON text

A reader stops at the first fault. A fault names its cause and keeps the input from there on, so
that line and column follow from the text as a whole.
-/

namespace Chip8.Json

/-- A value that stands where another was expected. -/
inductive Found
  | null
  | boolean (value : Bool)
  | integer (value : Int)
  | float (numeral : String)
  | text (value : String)
  | array
  | object
deriving DecidableEq

inductive Cause
  | endInArray
  | endInObject
  | endInString
  | endInValue
  | expectedColon
  | expectedArrayEnd
  | expectedObjectEnd
  | expectedWord
  | expectedValue
  | badEscape
  | badNumber
  | numberOutOfRange
  | controlCharacter
  | keyNotString
  | loneSurrogate
  | unfinishedSurrogate
  | trailingComma
  | trailingText
  | wrongType (found : Found) (expected : String)
  | wrongValue (found : Found) (expected : String)
  | wrongLength (length : Nat) (expected : String)
  | missingField (name : String)
  | repeatedField (name : String)
  | unknownVariant (name : String) (known : List String)
deriving DecidableEq

/-- The kinds of causes: text that is no JSON, JSON of the wrong shape, text that stops early. -/
inductive Category
  | malformed
  | mismatched
  | truncated
deriving DecidableEq

namespace Found

def describe : Found → String
  | null => "null"
  | boolean true => "boolean `true`"
  | boolean false => "boolean `false`"
  | integer n => "integer `" ++ toString n ++ "`"
  | float numeral => "floating point `" ++ numeral ++ "`"
  | text s => "string " ++ Text.Quoted.quote s
  | array => "sequence"
  | object => "map"

end Found

namespace Cause

def category : Cause → Category
  | endInArray | endInObject | endInString | endInValue => .truncated
  | wrongType .. | wrongValue .. | wrongLength .. | missingField .. | repeatedField ..
  | unknownVariant .. => .mismatched
  | _ => .malformed

/-- The names that were expected, as a message lists them. -/
def oneOf : List String → String
  | [] => "no variants"
  | [a] => "`" ++ a ++ "`"
  | [a, b] => "`" ++ a ++ "` or `" ++ b ++ "`"
  | names => "one of " ++ String.intercalate ", " (names.map fun a => "`" ++ a ++ "`")

def message : Cause → String
  | endInArray => "EOF while parsing a list"
  | endInObject => "EOF while parsing an object"
  | endInString => "EOF while parsing a string"
  | endInValue => "EOF while parsing a value"
  | expectedColon => "expected `:`"
  | expectedArrayEnd => "expected `,` or `]`"
  | expectedObjectEnd => "expected `,` or `\x7d`"
  | expectedWord => "expected ident"
  | expectedValue => "expected value"
  | badEscape => "invalid escape"
  | badNumber => "invalid number"
  | numberOutOfRange => "number out of range"
  | controlCharacter =>
    "control character (\\u0000-\\u001F) found while parsing a string"
  | keyNotString => "key must be a string"
  | loneSurrogate => "lone leading surrogate in hex escape"
  | unfinishedSurrogate => "unexpected end of hex escape"
  | trailingComma => "trailing comma"
  | trailingText => "trailing characters"
  | wrongType found expected => "invalid type: " ++ found.describe ++ ", expected " ++ expected
  | wrongValue found expected => "invalid value: " ++ found.describe ++ ", expected " ++ expected
  | wrongLength length expected => "invalid length " ++ toString length ++ ", expected " ++ expected
  | missingField name => "missing field `" ++ name ++ "`"
  | repeatedField name => "duplicate field `" ++ name ++ "`"
  | unknownVariant name known => "unknown variant `" ++ name ++ "`, expected " ++ oneOf known

end Cause

/-- A fault with the input that was left when it was found, and the number of bytes of that input
that count as read. -/
structure Fault where
  cause : Cause
  rest : List Char
  ahead : Nat

/-- A cause with its place. Lines count from one, and the column is the number of bytes of its
line that were read. -/
structure Failure where
  cause : Cause
  line : Nat
  column : Nat
deriving DecidableEq

def byteLength (text : List Char) : Nat := (String.ofList text).utf8ByteSize

/-- The place of a fault in the text that was read. -/
def Fault.locate (fault : Fault) (text : String) : Failure :=
  let bytes := text.toUTF8.toList
  let read := bytes.take (bytes.length - byteLength fault.rest + fault.ahead)
  ⟨fault.cause, read.count 10 + 1, (read.reverse.takeWhile (· != 10)).length⟩

namespace Failure

/-- The failure as one text, its message in quotes. -/
def describe (failure : Failure) : String :=
  "Error(" ++ Text.Quoted.quote failure.cause.message ++ ", line: " ++ toString failure.line
    ++ ", column: " ++ toString failure.column ++ ")"

def message (failure : Failure) : String :=
  failure.cause.message ++ " at line " ++ toString failure.line ++ " column "
    ++ toString failure.column

end Failure

end Chip8.Json
