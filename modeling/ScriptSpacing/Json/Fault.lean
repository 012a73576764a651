/-!
# `Json.Fault` — why a text is no JSON

The ways in which a text can break the grammar of JSON, each with its words. The faults at which more
text could have helped are told apart from the rest.
-/

namespace ScriptSpacing
namespace Json

/-- A break of the grammar. -/
inductive Fault where
  | endInList | endInObject | endInString | endInValue
  | expectedColon | expectedListCommaOrEnd | expectedObjectCommaOrEnd
  /-- a word that begins like `null`, `true` or `false` and goes on otherwise -/
  | expectedIdent
  | expectedValue
  | invalidEscape | invalidNumber | numberOutOfRange | controlCharacter
  | keyNotString | loneSurrogate | trailingComma | trailingCharacters | endOfHexEscape
deriving Repr, DecidableEq, Inhabited

namespace Fault

/-- The words for a fault. -/
def message : Fault → String
  | .endInList                => "EOF while parsing a list"
  | .endInObject              => "EOF while parsing an object"
  | .endInString              => "EOF while parsing a string"
  | .endInValue               => "EOF while parsing a value"
  | .expectedColon            => "expected `:`"
  | .expectedListCommaOrEnd   => "expected `,` or `]`"
  | .expectedObjectCommaOrEnd => "expected `,` or `\x7d`"
  | .expectedIdent            => "expected ident"
  | .expectedValue            => "expected value"
  | .invalidEscape            => "invalid escape"
  | .invalidNumber            => "invalid number"
  | .numberOutOfRange         => "number out of range"
  | .controlCharacter         =>
    "control character (\\u0000-\\u001F) found while parsing a string"
  | .keyNotString             => "key must be a string"
  | .loneSurrogate            => "lone leading surrogate in hex escape"
  | .trailingComma            => "trailing comma"
  | .trailingCharacters       => "trailing characters"
  | .endOfHexEscape           => "unexpected end of hex escape"

/-- Whether the text ended where more was needed. -/
def isEnd : Fault → Bool
  | .endInList | .endInObject | .endInString | .endInValue => true
  | _ => false

end Fault
end Json
end ScriptSpacing
