import TypeMend.Text.Quoted

/-!
# What can be wrong with a document

Reading a document stops at the first fault met from left to right, whether the text is not
JSON at all or holds a value of the wrong kind. `Error.message` words each fault.
-/
namespace TypeMend.Json

/-- A value met where another kind was expected. -/
inductive Found
  | null
  | boolean (value : Bool)
  | integer (value : Int)
  /-- A floating-point number, by its shortest decimal form. -/
  | float (text : String)
  | string (value : String)
  | sequence
  | map
  deriving DecidableEq

/-- The fault at which reading stopped. -/
inductive Error
  | endInValue
  | endInList
  | endInString
  | endInObject
  | expectedValue
  | expectedWord
  | expectedColon
  | expectedListComma
  | expectedObjectComma
  | keyNotString
  | trailingComma
  | trailingCharacters
  | invalidNumber
  | numberOutOfRange
  | invalidEscape
  | controlCharacter
  | cutHexEscape
  | loneSurrogate
  | invalidType (found : Found) (expected : String)
  | invalidValue (value : Int) (expected : String)
  | invalidLength (length : Nat) (title : String) (fields : Nat)
  | missingField (name : String)
  | duplicateField (name : String)
  | unknownField (name : String) (known : List String)
  | unknownVariant (name : String) (known : List String)
  deriving DecidableEq

/-- How a message names a value. -/
def Found.describe : Found → String
  | .null => "null"
  | .boolean value => s!"boolean `{value}`"
  | .integer value => s!"integer `{value}`"
  | .float text => s!"floating point `{text}`"
  | .string value => "string " ++ Text.quoted value
  | .sequence => "sequence"
  | .map => "map"

/-- The names a message offers as known. -/
def alternatives : List String → String
  | [] => "nothing"
  | [a] => s!"`{a}`"
  | [a, b] => s!"`{a}` or `{b}`"
  | names => "one of " ++ ", ".intercalate (names.map fun name => s!"`{name}`")

namespace Error

def message : Error → String
  | endInValue => "EOF while parsing a value"
  | endInList => "EOF while parsing a list"
  | endInString => "EOF while parsing a string"
  | endInObject => "EOF while parsing an object"
  | expectedValue => "expected value"
  | expectedWord => "expected ident"
  | expectedColon => "expected `:`"
  | expectedListComma => "expected `,` or `]`"
  | expectedObjectComma => "expected `,` or `\x7d`"
  | keyNotString => "key must be a string"
  | trailingComma => "trailing comma"
  | trailingCharacters => "trailing characters"
  | invalidNumber => "invalid number"
  | numberOutOfRange => "number out of range"
  | invalidEscape => "invalid escape"
  | controlCharacter => "control character (\\u0000-\\u001F) found while parsing a string"
  | cutHexEscape => "unexpected end of hex escape"
  | loneSurrogate => "lone leading surrogate in hex escape"
  | invalidType found expected => s!"invalid type: {found.describe}, expected {expected}"
  | invalidValue value expected => s!"invalid value: integer `{value}`, expected {expected}"
  | invalidLength length title fields =>
    let unit := if fields = 1 then "element" else "elements"
    s!"invalid length {length}, expected struct {title} with {fields} {unit}"
  | missingField name => s!"missing field `{name}`"
  | duplicateField name => s!"duplicate field `{name}`"
  | unknownField name known => s!"unknown field `{name}`, expected {alternatives known}"
  | unknownVariant name known => s!"unknown variant `{name}`, expected {alternatives known}"

end Error

end TypeMend.Json
