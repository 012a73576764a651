import ScriptSpacing.Text.Quoted
import ScriptSpacing.Token.Chain

/-!
# `Token.Listing` — tokens as people read them

A token is listed as the name of its kind and its text between double quotes, a chain as its tokens in
brackets.
-/

namespace ScriptSpacing

/-- A token as listed: its kind and its quoted text. -/
def Token.listing (t : Token) : String := t.kind.name ++ " " ++ Text.quotedString t.text

/-- A chain as listed: its linked tokens in brackets. -/
def Chain.listing (ch : Chain) : String :=
  "[" ++ ", ".intercalate (ch.toList.map Token.listing) ++ "]"

end ScriptSpacing
