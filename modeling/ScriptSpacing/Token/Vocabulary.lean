import ScriptSpacing.Token.Basic

/-!
# `Token.Vocabulary` — reserved words and punctuators

The two closed word lists of the language. `wordKind` sorts an identifier-shaped word; `punctuators`
is ordered longest first, so that the first entry which begins a text is the longest one that does.
-/

namespace ScriptSpacing
namespace Token

/-- The reserved words that are neither a boolean nor `null`. -/
def keywords : List String :=
  ["break", "case", "catch", "class", "const", "continue", "debugger", "default", "delete", "do",
    "else", "export", "extends", "finally", "for", "function", "if", "import", "in", "instanceof",
    "let", "new", "return", "super", "switch", "this", "throw", "try", "typeof", "var", "void",
    "while", "with", "yield"]

/-- The kind of an identifier-shaped word. -/
def wordKind (word : String) : Kind :=
  if word == "true" || word == "false" then .boolean
  else if word == "null" then .null
  else if keywords.contains word then .keyword
  else .identifier

/-- The operators and delimiters, longest first. -/
def punctuators : List String :=
  [">>>=",
    "===", "!==", "**=", "<<=", ">>=", ">>>", "&&=", "||=", "??=", "...",
    "=>", "==", "!=", "<=", ">=", "&&", "||", "??", "?.", "++", "--", "+=", "-=", "*=", "/=",
    "%=", "&=", "|=", "^=", "**", "<<", ">>",
    "\x7b", "\x7d", "(", ")", "[", "]", ";", ",", "<", ">", "+", "-", "*", "/", "%", "&", "|",
    "^", "!", "~", "?", ":", "=", ".", "@", "#"]

/-- The punctuators as lists of characters. -/
def punctuatorTexts : List (List Char) := punctuators.map String.toList

/-- The longest punctuator that begins a text. -/
def punctuatorAt? (cs : List Char) : Option (List Char) :=
  punctuatorTexts.find? (·.isPrefixOf cs)

/-- No punctuator is empty. -/
theorem ne_nil_of_mem_punctuatorTexts {p : List Char} (h : p ∈ punctuatorTexts) : p ≠ [] := by
  revert p; decide

/-- A punctuator that is found begins the text and is not empty. -/
theorem punctuatorAt?_spec {cs p : List Char} (h : punctuatorAt? cs = some p) :
    p <+: cs ∧ p ≠ [] := by
  refine ⟨?_, ne_nil_of_mem_punctuatorTexts (List.mem_of_find?_eq_some h)⟩
  simpa using List.find?_some h

end Token
end ScriptSpacing
