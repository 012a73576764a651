import ScriptSpacing.Text.Extender
import ScriptSpacing.Text.Unprintable

/-!
# `Text.Quoted` — characters and strings between quotes

The written form used in messages and token dumps. A character stands for itself unless it is the
surrounding quote, a backslash, one of the five that have a short escape, or a character that would
not show: then it is written as its code point, in lower-case hexadecimal between braces. The other
kind of quote needs no escape.
-/

namespace ScriptSpacing
namespace Text

/-- The hexadecimal digits of `n`, in lower case and without leading zeros. -/
def hexadecimal (n : Nat) : String := String.ofList (Nat.toDigits 16 n)

/-- A code point escape. -/
def codePointEscape (c : Char) : String := "\\u\x7b" ++ hexadecimal c.toNat ++ "\x7d"

/-- One character as it stands between two `quote`s. -/
def escaped (quote c : Char) : String :=
  if c = '\x00' then "\\0"
  else if c = '\t' then "\\t"
  else if c = '\r' then "\\r"
  else if c = '\n' then "\\n"
  else if c = '\\' then "\\\\"
  else if c = quote then String.ofList ['\\', quote]
  else if isExtender c || isUnprintable c then codePointEscape c
  else c.toString

/-- A character between single quotes. -/
def quotedChar (c : Char) : String := "'" ++ escaped '\'' c ++ "'"

/-- A string between double quotes. -/
def quotedString (s : String) : String :=
  "\"" ++ String.join (s.toList.map (escaped '"')) ++ "\""

end Text
end ScriptSpacing
