import ScriptSpacing.Text.Class
import ScriptSpacing.Token.Vocabulary

/-!
# `Token.Lexeme` — cutting one token from the front of a text

`Lexeme.next c cs` reads the text `c :: cs` and either cuts the token it begins with or says why there
is none. Every cutter below splits its text in two and loses nothing; `next_text_append_rest` collects
that fact for all of them, and `next_rest_lt` is the progress it gives.

The cutters take what they can: a run of a character class, the characters of a number, a string up to
its closing quote. The reserved words and the longest punctuator come from `Token.Vocabulary`.
-/

namespace ScriptSpacing

/-- Why a text begins with no token. -/
inductive Flaw where
  /-- a string literal that meets a newline or the end of the text before its quote -/
  | unterminatedString
  /-- a block comment that is never closed -/
  | unterminatedComment
  /-- a backquote: template literals are outside the language -/
  | templateLiteral
  /-- an ASCII character that starts no token -/
  | unexpectedCharacter (c : Char)
deriving Repr, DecidableEq, Inhabited

/-- A token cut from the front of a text, with the text that follows it. -/
structure Lexeme where
  kind : Token.Kind
  text : List Char
  rest : List Char
deriving Repr, DecidableEq, Inhabited

namespace Lexeme
open Text

/-- The token a lexeme stands for. -/
def token (l : Lexeme) : Token := ⟨l.kind, String.ofList l.text⟩

/-! ## Runs -/

/-- The longest prefix whose characters all satisfy `p`. -/
def run (kind : Token.Kind) (p : Char → Bool) (cs : List Char) : Lexeme :=
  ⟨kind, cs.takeWhile p, cs.dropWhile p⟩

/-- A carriage return takes the line feed after it along; any other line end stands alone. -/
def lineBreak (c : Char) (cs : List Char) : Lexeme :=
  match cs with
  | '\n' :: rest => if c = '\r' then ⟨.lineBreak, ['\r', '\n'], rest⟩ else ⟨.lineBreak, [c], cs⟩
  | _ => ⟨.lineBreak, [c], cs⟩

/-- A word is an identifier unless the vocabulary reserves it. -/
def word (cs : List Char) : Lexeme :=
  run (Token.wordKind (String.ofList (cs.takeWhile isWordPart))) isWordPart cs

/-! ## Comments and strings -/

/-- Reads up to the end of a block comment; `taken` is what has been read of it, last character
    first. -/
def closeComment (taken : List Char) : List Char → Except Flaw Lexeme
  | '*' :: '/' :: rest => .ok ⟨.blockComment, ('/' :: '*' :: taken).reverse, rest⟩
  | c :: cs => closeComment (c :: taken) cs
  | [] => .error .unterminatedComment

/-- Reads up to the closing `quote`; `taken` is what has been read of the literal, last character
    first. A backslash takes the next character along, whatever it is. -/
def closeString (quote : Char) (taken : List Char) : List Char → Except Flaw Lexeme
  | '\\' :: c :: cs => closeString quote (c :: '\\' :: taken) cs
  | c :: cs =>
    if c = quote then .ok ⟨.string, (c :: taken).reverse, cs⟩
    else if isNewline c then .error .unterminatedString
    else closeString quote (c :: taken) cs
  | [] => .error .unterminatedString

/-! ## Numbers -/

/-- A decimal digit or a digit separator. -/
def isDigitOrGap (c : Char) : Bool := isDigit c || c = '_'

/-- A hexadecimal digit or a digit separator. -/
def isHexDigitOrGap (c : Char) : Bool := isHexDigit c || c = '_'

/-- A point and the digits after it, if the text begins with a point. -/
def fraction : List Char → List Char × List Char
  | '.' :: cs => ('.' :: cs.takeWhile isDigitOrGap, cs.dropWhile isDigitOrGap)
  | cs => ([], cs)

/-- The sign of an exponent, if there is one. -/
def sign : List Char → List Char × List Char
  | '+' :: cs => (['+'], cs)
  | '-' :: cs => (['-'], cs)
  | cs => ([], cs)

/-- An exponent: a mark, a sign or none, and at least one digit. Without the digit the mark is not
    part of the number. -/
def exponent : List Char → List Char × List Char
  | c :: cs =>
    if (c = 'e' || c = 'E') && startsWithDigit (sign cs).2 then
      (c :: (sign cs).1 ++ (sign cs).2.takeWhile isDigit, (sign cs).2.dropWhile isDigit)
    else ([], c :: cs)
  | [] => ([], [])

/-- The suffix of a big integer, if there is one. -/
def suffix : List Char → List Char × List Char
  | 'n' :: cs => (['n'], cs)
  | cs => ([], cs)

/-- The hexadecimal marker `0x` or `0X`, if the text begins with one. -/
def hexMarker? : List Char → Option (List Char × List Char)
  | '0' :: x :: cs => if x = 'x' || x = 'X' then some (['0', x], cs) else none
  | _ => none

/-- The digits of a number, its suffix left out. -/
def magnitude (cs : List Char) : List Char × List Char :=
  match hexMarker? cs with
  | some (marker, rest) => (marker ++ rest.takeWhile isHexDigitOrGap, rest.dropWhile isHexDigitOrGap)
  | none =>
    let whole := cs.takeWhile isDigitOrGap
    let (point, afterPoint) := fraction (cs.dropWhile isDigitOrGap)
    let (power, rest) := exponent afterPoint
    (whole ++ point ++ power, rest)

/-- A numeric literal. -/
def number (cs : List Char) : Lexeme :=
  ⟨.numeric, (magnitude cs).1 ++ (suffix (magnitude cs).2).1, (suffix (magnitude cs).2).2⟩

/-! ## Punctuators -/

/-- The length of the punctuator `p` at the front of `p ++ rest`: a question mark and a point before
    a digit are a conditional and a fraction, not optional chaining. -/
def punctuatorText (p rest : List Char) : List Char :=
  if p = ['?', '.'] && startsWithDigit rest then ['?'] else p

/-- The longest punctuator that begins the text `c :: cs`. -/
def punctuator (c : Char) (cs : List Char) : Except Flaw Lexeme :=
  match Token.punctuatorAt? (c :: cs) with
  | some p =>
    let text := punctuatorText p ((c :: cs).drop p.length)
    .ok ⟨.punctuator, text, (c :: cs).drop text.length⟩
  | none => .error (.unexpectedCharacter c)

/-! ## The next token -/

/-- The token that the text `c :: cs` begins with. -/
def next (c : Char) (cs : List Char) : Except Flaw Lexeme :=
  if isBlank c then .ok (run .whiteSpace isBlank (c :: cs))
  else if isLineEnd c then .ok (lineBreak c cs)
  else if c = '/' && cs.head? = some '/' then .ok (run .lineComment (fun d => !isNewline d) (c :: cs))
  else if c = '/' && cs.head? = some '*' then closeComment ['*', '/'] cs.tail
  else if c = '"' || c = '\'' then closeString c [c] cs
  else if c = '`' then .error .templateLiteral
  else if isDigit c || (c = '.' && startsWithDigit cs) then .ok (number (c :: cs))
  else if isWordStart c then .ok (word (c :: cs))
  else punctuator c cs

/-! ## Nothing is lost -/

theorem run_text_append_rest (kind : Token.Kind) (p : Char → Bool) (cs : List Char) :
    (run kind p cs).text ++ (run kind p cs).rest = cs := List.takeWhile_append_dropWhile

theorem lineBreak_text_append_rest (c : Char) (cs : List Char) :
    (lineBreak c cs).text ++ (lineBreak c cs).rest = c :: cs := by
  unfold lineBreak
  split
  · split <;> simp_all
  · simp

theorem closeComment_text_append_rest {taken cs : List Char} {l : Lexeme}
    (h : closeComment taken cs = .ok l) : l.text ++ l.rest = taken.reverse ++ cs := by
  fun_induction closeComment taken cs with
  | case1 taken rest => cases h; simp
  | case2 taken c cs _ ih => simpa using ih h
  | case3 => cases h

theorem closeString_text_append_rest {quote : Char} {taken cs : List Char} {l : Lexeme}
    (h : closeString quote taken cs = .ok l) : l.text ++ l.rest = taken.reverse ++ cs := by
  fun_induction closeString quote taken cs with
  | case1 taken c cs ih => simpa using ih h
  | case2 taken c cs => cases h; simp
  | case3 => cases h
  | case4 taken c cs _ _ _ ih => simpa using ih h
  | case5 => cases h

theorem fraction_append (cs : List Char) : (fraction cs).1 ++ (fraction cs).2 = cs := by
  unfold fraction; split <;> simp [List.takeWhile_append_dropWhile]

theorem sign_append (cs : List Char) : (sign cs).1 ++ (sign cs).2 = cs := by
  unfold sign; split <;> simp

theorem exponent_append (cs : List Char) : (exponent cs).1 ++ (exponent cs).2 = cs := by
  unfold exponent
  split
  · split
    · simp [List.takeWhile_append_dropWhile, sign_append]
    · simp
  · rfl

theorem suffix_append (cs : List Char) : (suffix cs).1 ++ (suffix cs).2 = cs := by
  unfold suffix; split <;> simp

theorem hexMarker?_append {cs marker rest : List Char} (h : hexMarker? cs = some (marker, rest)) :
    marker ++ rest = cs := by
  unfold hexMarker? at h
  split at h
  · split at h <;> simp_all
    obtain ⟨rfl, rfl⟩ := h
    rfl
  · cases h

theorem magnitude_append (cs : List Char) : (magnitude cs).1 ++ (magnitude cs).2 = cs := by
  unfold magnitude
  split
  · next marker rest h =>
      simp [List.append_assoc, List.takeWhile_append_dropWhile, hexMarker?_append h]
  · simp [List.append_assoc, exponent_append, fraction_append, List.takeWhile_append_dropWhile]

theorem number_text_append_rest (cs : List Char) : (number cs).text ++ (number cs).rest = cs := by
  simp [number, List.append_assoc, suffix_append, magnitude_append]

/-- The text of a punctuator token begins with the punctuator that was found, or is cut short from
    it; either way it is a prefix of the text it was found in. -/
theorem isPrefix_punctuatorText {p cs : List Char} (h : p <+: cs) (rest : List Char) :
    punctuatorText p rest <+: cs := by
  unfold punctuatorText
  split
  · next hp =>
      simp only [Bool.and_eq_true, decide_eq_true_eq] at hp
      exact List.IsPrefix.trans ⟨['.'], by simp [hp.1]⟩ h
  · exact h

theorem punctuator_text_append_rest {c : Char} {cs : List Char} {l : Lexeme}
    (h : punctuator c cs = .ok l) : l.text ++ l.rest = c :: cs := by
  unfold punctuator at h
  split at h
  · next p hp =>
      cases h
      exact List.prefix_iff_eq_append.mp
        (isPrefix_punctuatorText (Token.punctuatorAt?_spec hp).1 ((c :: cs).drop p.length))
  · cases h

/-- **A cut loses nothing**: the token's text and the rest are the text that was read. -/
theorem next_text_append_rest {c : Char} {cs : List Char} {l : Lexeme} (h : next c cs = .ok l) :
    l.text ++ l.rest = c :: cs := by
  unfold next at h
  split at h
  · cases h; exact run_text_append_rest _ _ _
  split at h
  · cases h; exact lineBreak_text_append_rest c cs
  split at h
  · cases h; exact run_text_append_rest _ _ _
  split at h
  · next hc =>
      simp only [Bool.and_eq_true, decide_eq_true_eq] at hc
      have := closeComment_text_append_rest h
      cases cs with
      | nil => simp at hc
      | cons d ds => simp_all
  split at h
  · simpa using closeString_text_append_rest h
  split at h
  · cases h
  split at h
  · cases h; exact number_text_append_rest _
  split at h
  · cases h; exact run_text_append_rest _ _ _
  · exact punctuator_text_append_rest h

/-! ## A token is never empty -/

theorem run_text_ne_nil {kind : Token.Kind} {p : Char → Bool} {c : Char} (cs : List Char)
    (h : p c = true) : (run kind p (c :: cs)).text ≠ [] := by
  simp [run, h]

theorem lineBreak_text_ne_nil (c : Char) (cs : List Char) : (lineBreak c cs).text ≠ [] := by
  unfold lineBreak; split <;> (try split) <;> simp

theorem closeComment_text_ne_nil {taken cs : List Char} {l : Lexeme}
    (h : closeComment taken cs = .ok l) : l.text ≠ [] := by
  fun_induction closeComment taken cs with
  | case1 => cases h; simp
  | case2 _ _ _ _ ih => exact ih h
  | case3 => cases h

theorem closeString_text_ne_nil {quote : Char} {taken cs : List Char} {l : Lexeme}
    (h : closeString quote taken cs = .ok l) : l.text ≠ [] := by
  fun_induction closeString quote taken cs with
  | case1 _ _ _ ih => exact ih h
  | case2 => cases h; simp
  | case3 => cases h
  | case4 _ _ _ _ _ _ ih => exact ih h
  | case5 => cases h

/-- A number takes the digit, or the point before a digit, that it starts with. -/
theorem number_text_ne_nil {c : Char} {cs : List Char}
    (h : isDigit c = true ∨ c = '.') : (number (c :: cs)).text ≠ [] := by
  have hm : (magnitude (c :: cs)).1 ≠ [] := by
    unfold magnitude
    split
    · next marker rest hx =>
        unfold hexMarker? at hx
        split at hx
        · split at hx <;> simp_all
          obtain ⟨rfl, -⟩ := hx
          simp
        · cases hx
    · rcases h with h | rfl
      · simp [isDigitOrGap, h]
      · simp [isDigitOrGap, fraction, show isDigit '.' = false by decide]
  simp [number, hm]

theorem punctuator_text_ne_nil {c : Char} {cs : List Char} {l : Lexeme}
    (h : punctuator c cs = .ok l) : l.text ≠ [] := by
  unfold punctuator at h
  split at h
  · next p hp =>
      cases h
      unfold punctuatorText
      split
      · simp
      · exact (Token.punctuatorAt?_spec hp).2
  · cases h

/-- **A cut takes something**: no token is empty. -/
theorem next_text_ne_nil {c : Char} {cs : List Char} {l : Lexeme} (h : next c cs = .ok l) :
    l.text ≠ [] := by
  unfold next at h
  split at h
  · next hb => cases h; exact run_text_ne_nil cs hb
  split at h
  · cases h; exact lineBreak_text_ne_nil c cs
  split at h
  · next hc =>
      simp only [Bool.and_eq_true, decide_eq_true_eq] at hc
      cases h
      exact run_text_ne_nil cs (by rw [hc.1]; decide)
  split at h
  · exact closeComment_text_ne_nil h
  split at h
  · exact closeString_text_ne_nil h
  split at h
  · cases h
  split at h
  · next hd =>
      simp only [Bool.or_eq_true, Bool.and_eq_true, decide_eq_true_eq] at hd
      cases h
      exact number_text_ne_nil (hd.imp id And.left)
  split at h
  · next hw => cases h; exact run_text_ne_nil cs (by simp [isWordPart, hw])
  · exact punctuator_text_ne_nil h

/-- **Progress**: what follows a token is shorter than what was read. -/
theorem next_rest_lt {c : Char} {cs : List Char} {l : Lexeme} (h : next c cs = .ok l) :
    l.rest.length < (c :: cs).length := by
  have happ := congrArg List.length (next_text_append_rest h)
  have hne : 0 < l.text.length := List.length_pos_iff.mpr (next_text_ne_nil h)
  simp only [List.length_append] at happ
  omega

end Lexeme
end ScriptSpacing
