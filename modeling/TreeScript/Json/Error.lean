/-
# What can be wrong with a JSON text

Each constructor is one cause, and `message` is its wording.  What a user is shown goes on with the
place where the reader stopped, ` at line L column C`.  No reader here counts lines and columns, and
the wording ends before them.
-/

namespace TreeScript

/-- Why a text is not JSON. -/
inductive JsonError where
  | endInValue
  | endInObject
  | endInArray
  | endInText
  | expectedValue
  | expectedWord
  | expectedColon
  | expectedObjectEnd
  | expectedArrayEnd
  | nameNotText
  | trailingComma
  | trailingCharacters
  | invalidNumber
  | numberOutOfRange
  | invalidEscape
  | unfinishedPair
  | loneSurrogate
  | controlCharacter
  | tooDeep
  deriving DecidableEq, Repr

/-- The wording of an error. -/
def JsonError.message : JsonError → String
  | .endInValue => "EOF while parsing a value"
  | .endInObject => "EOF while parsing an object"
  | .endInArray => "EOF while parsing a list"
  | .endInText => "EOF while parsing a string"
  | .expectedValue => "expected value"
  | .expectedWord => "expected ident"
  | .expectedColon => "expected `:`"
  | .expectedObjectEnd => "expected `,` or `\x7d`"
  | .expectedArrayEnd => "expected `,` or `]`"
  | .nameNotText => "key must be a string"
  | .trailingComma => "trailing comma"
  | .trailingCharacters => "trailing characters"
  | .invalidNumber => "invalid number"
  | .numberOutOfRange => "number out of range"
  | .invalidEscape => "invalid escape"
  | .unfinishedPair => "unexpected end of hex escape"
  | .loneSurrogate => "lone leading surrogate in hex escape"
  | .controlCharacter =>
    "control character (\\u0000-\\u001F) found while parsing a string"
  | .tooDeep => "recursion limit exceeded"

end TreeScript
