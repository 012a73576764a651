import ScriptSpacing.Text.Class
import ScriptSpacing.Token.ByteCursor
import ScriptSpacing.Token.Scan

/-!
# `Token.ByteScan` — cutting a text into tokens byte by byte

The scanner over bytes reads the text that `Token.scan` reads by characters. A cursor stands at the start of
a token, each token is cut by moving it, and its text is sliced out of the source between the two positions.
Bytes are enough to tell one ASCII character from another; characters are looked at where a byte is none.

Two things can go wrong that cannot in a scan by characters: a slice may begin or end inside of a character,
and a round may leave the cursor where it was and so go on forever. Both are outcomes here (`Halt`).
-/

namespace ScriptSpacing

/-! ## Classes of bytes -/

namespace Text

/-- A byte that begins or continues a character outside ASCII. -/
def isHighByte (b : UInt8) : Bool := 0x80 ≤ b

/-- Space, tab, vertical tab or form feed. -/
def isBlankByte (b : UInt8) : Bool := b = ' '.toUInt8 || b = '\t'.toUInt8 || b = 0x0b || b = 0x0c

/-- Line feed or carriage return. -/
def isNewlineByte (b : UInt8) : Bool := b = '\n'.toUInt8 || b = '\r'.toUInt8

/-- A decimal digit. -/
def isDigitByte (b : UInt8) : Bool := '0'.toUInt8 ≤ b && b ≤ '9'.toUInt8

/-- A decimal digit or a digit separator. -/
def isDigitOrGapByte (b : UInt8) : Bool := isDigitByte b || b = '_'.toUInt8

/-- A hexadecimal digit or a digit separator. -/
def isHexDigitOrGapByte (b : UInt8) : Bool :=
  isDigitByte b || ('a'.toUInt8 ≤ b && b ≤ 'f'.toUInt8) || ('A'.toUInt8 ≤ b && b ≤ 'F'.toUInt8) ||
    b = '_'.toUInt8

/-- What a word of ASCII may start with. -/
def isWordStartByte (b : UInt8) : Bool :=
  ('a'.toUInt8 ≤ b && b ≤ 'z'.toUInt8) || ('A'.toUInt8 ≤ b && b ≤ 'Z'.toUInt8) ||
    b = '_'.toUInt8 || b = '$'.toUInt8

/-- What a word of ASCII may continue with. -/
def isWordPartByte (b : UInt8) : Bool := isWordStartByte b || isDigitByte b

/-- No class holds the byte that stands for the end. -/
theorem ne_zero_of_class {b : UInt8}
    (h : isBlankByte b = true ∨ isHighByte b = true ∨ isWordPartByte b = true) : b ≠ 0 := by
  rintro rfl
  revert h
  decide

end Text

/-! ## Cutting tokens -/

/-- Why a scan over bytes ends without tokens. -/
inductive Halt where
  /-- the text begins with no token -/
  | flaw (e : LexError)
  /-- a slice that does not keep to the boundaries of characters -/
  | panic
  /-- a token that took no byte -/
  | stalled
deriving Repr, DecidableEq, Inhabited

/-- The kind of a token, and where it starts and ends. -/
structure RawToken where
  kind  : Token.Kind
  start : Nat
  stop  : Nat
deriving Repr, DecidableEq, Inhabited

namespace ByteCursor
open Text

variable {s : String}

/-- Moves over blanks, of ASCII or not. -/
def blanks (c : ByteCursor s) : ByteCursor s :=
  if _h : isBlankByte c.current = true then blanks (c.advance 1)
  else if _h : isHighByte c.current = true then
    match c.char? with
    | some x => if isUnicodeSpace x then blanks (c.advance x.utf8Size) else c
    | none   => c
  else c
termination_by c.remaining
decreasing_by
  · exact remaining_advance_lt (lt_of_current_ne_zero (ne_zero_of_class (.inl _h))) Nat.one_pos
  · exact remaining_advance_lt (lt_of_current_ne_zero (ne_zero_of_class (.inr (.inl _h))))
      x.utf8Size_pos

/-- Moves over the rest of a word. -/
def wordEnd (c : ByteCursor s) : ByteCursor s :=
  if _h : isHighByte c.current = true then
    match c.char? with
    | some x => if isUnicodeSpace x || isSeparator x then c else wordEnd (c.advance x.utf8Size)
    | none   => c
  else if _h : isWordPartByte c.current = true then wordEnd (c.advance 1)
  else c
termination_by c.remaining
decreasing_by
  · exact remaining_advance_lt (lt_of_current_ne_zero (ne_zero_of_class (.inr (.inl _h))))
      x.utf8Size_pos
  · exact remaining_advance_lt (lt_of_current_ne_zero (ne_zero_of_class (.inr (.inr _h))))
      Nat.one_pos

/-- Moves behind the closing quote of a string. A backslash takes the next byte along, which may be the
    first of several of one character. -/
def stringEnd? (quote : UInt8) (c : ByteCursor s) : Option (ByteCursor s) :=
  if _h : c.current = '\\'.toUInt8 then stringEnd? quote (c.advance 2)
  else if isNewlineByte c.current then none
  else if _h : c.atEnd = true then none
  else if c.current = quote then some (c.advance 1)
  else stringEnd? quote (c.advance 1)
termination_by c.remaining
decreasing_by
  · exact remaining_advance_lt (lt_of_current_ne_zero (by rw [_h]; decide)) (by decide)
  · exact remaining_advance_lt (lt_of_not_atEnd _h) Nat.one_pos

/-- Moves over a point and the digits behind it, if there are any. -/
def fraction (c : ByteCursor s) : ByteCursor s :=
  if c.current = '.'.toUInt8 then (c.advance 1).eatWhile isDigitOrGapByte else c

/-- The number of bytes of the sign behind the mark of an exponent. -/
def signSize (c : ByteCursor s) : Nat :=
  if c.peek 1 = '+'.toUInt8 ∨ c.peek 1 = '-'.toUInt8 then 1 else 0

/-- Moves over an exponent, if there is one. -/
def exponent (c : ByteCursor s) : ByteCursor s :=
  if c.current = 'e'.toUInt8 ∨ c.current = 'E'.toUInt8 then
    if isDigitByte (c.peek (1 + c.signSize)) then
      (c.advance (1 + c.signSize)).eatWhile isDigitByte
    else c
  else c

/-- Moves over the digits of a number. -/
def magnitude (c : ByteCursor s) : ByteCursor s :=
  if c.current = '0'.toUInt8 ∧ (c.peek 1 = 'x'.toUInt8 ∨ c.peek 1 = 'X'.toUInt8) then
    (c.advance 2).eatWhile isHexDigitOrGapByte
  else (c.eatWhile isDigitOrGapByte).fraction.exponent

/-- Moves over a number. -/
def number (c : ByteCursor s) : ByteCursor s :=
  if c.magnitude.current = 'n'.toUInt8 then c.magnitude.advance 1 else c.magnitude

/-- Moves behind the longest punctuator at the cursor. -/
def punctuatorEnd? (c : ByteCursor s) : Option (ByteCursor s) :=
  (Token.punctuators.find? (fun p => c.startsWith (bytes p))).map fun p =>
    c.advance (if p = "?." ∧ isDigitByte (c.peek 2) = true then 1 else p.utf8ByteSize)

/-- A token from one cursor to another. -/
def cut (kind : Token.Kind) (c c' : ByteCursor s) :
    Except Halt (Option (RawToken × ByteCursor s)) :=
  .ok (some (⟨kind, c.pos, c'.pos⟩, c'))

/-- There is no token at a cursor. -/
def fail (flaw : Flaw) (c : ByteCursor s) : Except Halt (Option (RawToken × ByteCursor s)) :=
  .error (.flaw ⟨flaw, c.pos⟩)

/-- A token up to the end that was found, if there is one. -/
def cutTo (kind : Token.Kind) (flaw : Flaw) (c : ByteCursor s) :
    Option (ByteCursor s) → Except Halt (Option (RawToken × ByteCursor s))
  | some c' => cut kind c c'
  | none    => fail flaw c

/-- A word, sorted by its text. -/
def cutWord (c : ByteCursor s) : Except Halt (Option (RawToken × ByteCursor s)) :=
  match slice? s c.pos c.wordEnd.pos with
  | some word => cut (Token.wordKind word) c c.wordEnd
  | none      => .error .panic

/-- A token that begins with a character outside ASCII. -/
def cutHigh (c : ByteCursor s) : Except Halt (Option (RawToken × ByteCursor s)) :=
  match c.char? with
  | some x =>
    if isSeparator x then cut .lineBreak c (c.advance x.utf8Size)
    else if isUnicodeSpace x then cut .whiteSpace c c.blanks
    else c.cutWord
  | none => c.cutWord

/-- The token at the cursor and the cursor behind it, or nothing at the end. -/
def nextToken (c : ByteCursor s) : Except Halt (Option (RawToken × ByteCursor s)) :=
  if c.atEnd then .ok none
  else if isBlankByte c.current then cut .whiteSpace c c.blanks
  else if c.current = '\n'.toUInt8 then cut .lineBreak c (c.advance 1)
  else if c.current = '\r'.toUInt8 then
    cut .lineBreak c
      (if (c.advance 1).current = '\n'.toUInt8 then (c.advance 1).advance 1 else c.advance 1)
  else if c.current = '/'.toUInt8 ∧ c.peek 1 = '/'.toUInt8 then
    cut .lineComment c (c.skipTo isNewlineByte)
  else if c.current = '/'.toUInt8 ∧ c.peek 1 = '*'.toUInt8 then
    cutTo .blockComment .unterminatedComment c ((c.advance 2).skipPast? (bytes "*/"))
  else if c.current = '"'.toUInt8 ∨ c.current = '\''.toUInt8 then
    cutTo .string .unterminatedString c (stringEnd? c.current (c.advance 1))
  else if c.current = '`'.toUInt8 then fail .templateLiteral c
  else if isDigitByte c.current ∨ (c.current = '.'.toUInt8 ∧ isDigitByte (c.peek 1) = true) then
    cut .numeric c c.number
  else if isHighByte c.current then c.cutHigh
  else if isWordStartByte c.current then c.cutWord
  else cutTo .punctuator (.unexpectedCharacter (Char.ofUInt8 c.current)) c c.punctuatorEnd?

/-- The tokens from a cursor on, after the tokens `taken` (last token first). -/
def tokensFrom (c : ByteCursor s) (taken : List Token) : Except Halt (List Token) :=
  match c.nextToken with
  | .error h => .error h
  | .ok none => .ok taken.reverse
  | .ok (some (raw, c')) =>
    match slice? s raw.start raw.stop with
    | none      => .error .panic
    | some text =>
      -- a cursor that stays where it is comes back to the same token forever
      if c'.remaining < c.remaining then c'.tokensFrom (⟨raw.kind, text⟩ :: taken)
      else .error .stalled
termination_by c.remaining

end ByteCursor

/-- The tokens of a text, cut byte by byte. -/
def Token.scanBytes (source : String) : Except Halt (List Token) :=
  (ByteCursor.start source).tokensFrom []

end ScriptSpacing
