import ScriptSpacing.Token.Lexeme

/-!
# `Token.Scan` — cutting a whole text into tokens

`Token.scan` cuts a text from front to back until nothing is left or a cut fails; the failure carries
the byte offset it happened at. The recursion is on the length of the text, which every cut shortens.
The main statement is `source_scan`: the tokens of a text, put together again, are the text.
-/

namespace ScriptSpacing

/-- A text that cannot be cut into tokens: why, and at which byte. -/
structure LexError where
  flaw   : Flaw
  offset : Nat
deriving Repr, DecidableEq, Inhabited

namespace Token

/-- Cuts the rest `cs` of a text, which begins at byte `offset`, after the tokens `taken` (last token
    first). -/
def scanFrom (offset : Nat) (taken : List Token) (cs : List Char) : Except LexError (List Token) :=
  match cs with
  | [] => .ok taken.reverse
  | c :: cs =>
    match _h : Lexeme.next c cs with
    | .error flaw => .error ⟨flaw, offset⟩
    | .ok l => scanFrom (offset + l.token.size) (l.token :: taken) l.rest
termination_by cs.length
decreasing_by exact Lexeme.next_rest_lt _h

/-- The tokens of a text. -/
def scan (source : String) : Except LexError (List Token) := scanFrom 0 [] source.toList

/-! ## The tokens are the text -/

theorem toList_source (ts : List Token) :
    (source ts).toList = ts.flatMap (fun t => t.text.toList) := by
  simp only [source, String.toList_join, List.flatMap_map]

theorem toList_source_append (ts us : List Token) :
    (source (ts ++ us)).toList = (source ts).toList ++ (source us).toList := by
  simp [toList_source]

theorem source_scanFrom {offset : Nat} {taken ts : List Token} {cs : List Char}
    (h : scanFrom offset taken cs = .ok ts) :
    (source ts).toList = (source taken.reverse).toList ++ cs := by
  fun_induction scanFrom offset taken cs with
  | case1 => cases h; simp
  | case2 => cases h
  | case3 offset taken c cs l hl ih =>
      rw [ih h]
      simp [toList_source, Lexeme.token, ← Lexeme.next_text_append_rest hl]

/-- **Scanning is lossless**: the tokens of a text, put together again, are the text. -/
theorem source_scan {s : String} {ts : List Token} (h : scan s = .ok ts) : source ts = s := by
  apply String.ext
  simpa [source] using source_scanFrom h

end Token
end ScriptSpacing
