/-!
# `Text.Class` — the character classes of an ECMAScript text

Every token is cut by asking one of these questions of a character: is it horizontal whitespace, does
it end a line, may it start or continue a word. The classes that decide how a token *begins*
(`isBlank`, `isLineEnd`, `isWordStart`, digits, quotes, operators) are disjoint; that is what makes
the order of the questions in `Token.Lexeme` immaterial.

Two different notions of "end of a line" live here on purpose. `isNewline` is what stops a line
comment and breaks a string; `isLineEnd` adds the two Unicode separators, which are line breaks
between tokens but ordinary characters inside a comment or a string.
-/

namespace ScriptSpacing
namespace Text

/-- The code points below 128. -/
def isAscii (c : Char) : Bool := c.val < 0x80

/-- Unicode space separators outside ASCII, with the byte order mark. -/
def isUnicodeSpace (c : Char) : Bool :=
  c = '\u00a0' || c = '\ufeff' || c = '\u1680' || ('\u2000' ≤ c && c ≤ '\u200a') ||
    c = '\u202f' || c = '\u205f' || c = '\u3000'

/-- Horizontal whitespace: space, tab, vertical tab, form feed, or a Unicode space. -/
def isBlank (c : Char) : Bool :=
  c = ' ' || c = '\t' || c = '\x0b' || c = '\x0c' || isUnicodeSpace c

/-- Line feed or carriage return: what ends a line comment and breaks a string literal. -/
def isNewline (c : Char) : Bool := c = '\n' || c = '\r'

/-- LINE SEPARATOR or PARAGRAPH SEPARATOR. -/
def isSeparator (c : Char) : Bool := c = '\u2028' || c = '\u2029'

/-- The characters that start a line break token. -/
def isLineEnd (c : Char) : Bool := isNewline c || isSeparator c

/-- An ASCII decimal digit. -/
def isDigit (c : Char) : Bool := '0' ≤ c && c ≤ '9'

/-- A hexadecimal digit in either case. -/
def isHexDigit (c : Char) : Bool :=
  isDigit c || ('a' ≤ c && c ≤ 'f') || ('A' ≤ c && c ≤ 'F')

/-- An ASCII letter. -/
def isLetter (c : Char) : Bool := ('a' ≤ c && c ≤ 'z') || ('A' ≤ c && c ≤ 'Z')

/-- A character outside ASCII that is neither whitespace nor a line separator: it belongs to a word
    wherever it stands, whatever its Unicode category. -/
def isForeign (c : Char) : Bool := !isAscii c && !isUnicodeSpace c && !isSeparator c

/-- What an identifier, keyword or literal word may start with. -/
def isWordStart (c : Char) : Bool := isLetter c || c = '_' || c = '$' || isForeign c

/-- What an identifier, keyword or literal word may continue with. -/
def isWordPart (c : Char) : Bool := isWordStart c || isDigit c

/-- Whether a text begins with a decimal digit. -/
def startsWithDigit : List Char → Bool
  | []     => false
  | c :: _ => isDigit c

end Text
end ScriptSpacing
