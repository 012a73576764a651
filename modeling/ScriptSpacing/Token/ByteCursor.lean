import ScriptSpacing.Text.Position

/-!
# `Token.ByteCursor` — a cursor over the bytes of a text

A cursor is a position among the UTF-8 bytes of a text. It looks at bytes, the byte past the end being
zero, and moves forwards by bytes; nothing keeps it on the boundaries of characters but the way it is used.
Two of its methods look at characters: `char?` is the character that begins at the cursor, and `slice?` the
text between two positions, none if one of them is inside a character.
-/

namespace ScriptSpacing

/-- The text from one byte to another, if these are boundaries of characters in order. -/
def Text.slice? (s : String) (start stop : Nat) : Option String :=
  if start ≤ stop && (String.Pos.Raw.mk start).isValid s && (String.Pos.Raw.mk stop).isValid s then
    some (String.Pos.Raw.extract s ⟨start⟩ ⟨stop⟩)
  else none

/-- The offset at which some bytes first occur among others. -/
def Text.indexOf? (needle : List UInt8) : List UInt8 → Option Nat
  | []      => if needle.isEmpty then some 0 else none
  | b :: bs =>
    if needle.isPrefixOf (b :: bs) then some 0 else (indexOf? needle bs).map (· + 1)

/-- A position among the bytes of the text `s`. -/
structure ByteCursor (s : String) where
  pos    : Nat
  inside : pos ≤ s.utf8ByteSize
deriving DecidableEq

namespace ByteCursor

variable {s : String}

/-- The cursor at the start of a text. -/
def start (s : String) : ByteCursor s := ⟨0, Nat.zero_le _⟩

/-- Whether no byte is left. -/
def atEnd (c : ByteCursor s) : Bool := s.utf8ByteSize ≤ c.pos

/-- The number of bytes that are left. -/
def remaining (c : ByteCursor s) : Nat := s.utf8ByteSize - c.pos

/-- The bytes that are left. -/
def rest (c : ByteCursor s) : List UInt8 := (Text.bytes s).drop c.pos

/-- The byte `n` positions ahead, zero past the end. -/
def peek (c : ByteCursor s) (n : Nat) : UInt8 := ((Text.bytes s)[c.pos + n]?).getD 0

/-- The byte at the cursor, zero at the end. -/
def current (c : ByteCursor s) : UInt8 := c.peek 0

/-- The character that begins at the cursor; none at the end and inside of a character. -/
def char? (c : ByteCursor s) : Option Char := String.Pos.Raw.get? s ⟨c.pos⟩

/-- Whether the bytes that are left begin with some others. -/
def startsWith (c : ByteCursor s) (front : List UInt8) : Bool := front.isPrefixOf c.rest

/-- Moves by `n` bytes, at most to the end. -/
def advance (c : ByteCursor s) (n : Nat) : ByteCursor s :=
  ⟨min (c.pos + n) s.utf8ByteSize, Nat.min_le_right _ _⟩

/-- **Progress**: inside of the text, moving leaves fewer bytes. -/
theorem remaining_advance_lt {c : ByteCursor s} {n : Nat} (hpos : c.pos < s.utf8ByteSize)
    (hn : 0 < n) : (c.advance n).remaining < c.remaining := by
  unfold remaining advance
  dsimp only
  omega

/-- Only past the end is there no byte. -/
theorem lt_of_current_ne_zero {c : ByteCursor s} (h : c.current ≠ 0) :
    c.pos < s.utf8ByteSize := by
  apply Nat.lt_of_not_le
  intro hge
  apply h
  unfold current peek
  rw [List.getElem?_eq_none (by rw [Text.length_bytes]; omega)]
  rfl

theorem lt_of_not_atEnd {c : ByteCursor s} (h : ¬c.atEnd = true) : c.pos < s.utf8ByteSize := by
  unfold atEnd at h
  simpa using h

/-- Moves on while the bytes satisfy `p`. -/
def eatWhile (p : UInt8 → Bool) (c : ByteCursor s) : ByteCursor s :=
  if _h : c.atEnd = true then c
  else if p c.current then eatWhile p (c.advance 1)
  else c
termination_by c.remaining
decreasing_by exact remaining_advance_lt (lt_of_not_atEnd _h) Nat.one_pos

/-- Moves to the next byte that satisfies `p`, or to the end. -/
def skipTo (p : UInt8 → Bool) (c : ByteCursor s) : ByteCursor s :=
  match c.rest.findIdx? p with
  | some n => c.advance n
  | none   => c.advance c.remaining

/-- Moves past the next occurrence of some bytes, if there is one. -/
def skipPast? (needle : List UInt8) (c : ByteCursor s) : Option (ByteCursor s) :=
  (Text.indexOf? needle c.rest).map fun n => c.advance (n + needle.length)

end ByteCursor
end ScriptSpacing
