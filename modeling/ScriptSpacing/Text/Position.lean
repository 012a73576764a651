/-!
# `Text.Position` — lines and columns of byte offsets

Offsets count the bytes of the UTF-8 form of a text, and so do columns; only a line feed ends a line.
A position is what remains of the bytes before it: start at line 1, column 1, and step over each byte.
So every offset has a position, also one inside a multi-byte character, and an offset past the end has
the position of the end.
-/

namespace ScriptSpacing

/-- A line and a column, both counted from 1. -/
structure Position where
  line   : Nat
  column : Nat
deriving Repr, DecidableEq, Inhabited

namespace Position

/-- The byte of a line feed. -/
def lineFeed : UInt8 := 10

/-- The position of the first byte of a text. -/
def start : Position := ⟨1, 1⟩

/-- The position after one more byte. -/
def step (p : Position) (b : UInt8) : Position :=
  if b = lineFeed then ⟨p.line + 1, 1⟩ else ⟨p.line, p.column + 1⟩

/-- The position reached from `p` by reading all of `bytes`. -/
def past (p : Position) (bytes : List UInt8) : Position := bytes.foldl step p

/-- The position reached after reading all of `bytes`. -/
def after (bytes : List UInt8) : Position := start.past bytes

/-- The line and the column, a colon between them. -/
def text (p : Position) : String := s!"{p.line}:{p.column}"

end Position

namespace Text

/-- The UTF-8 bytes of a text. -/
def bytes (s : String) : List UInt8 := s.toByteArray.data.toList

/-- The position of a byte offset of `s`. -/
def positionAt (s : String) (offset : Nat) : Position := Position.after ((bytes s).take offset)

theorem bytes_append (s t : String) : bytes (s ++ t) = bytes s ++ bytes t := by
  simp [bytes]

theorem length_bytes (s : String) : (bytes s).length = s.utf8ByteSize := rfl

/-- **Past the end is the end.** -/
theorem positionAt_of_size_le {s : String} {offset : Nat} (h : s.utf8ByteSize ≤ offset) :
    positionAt s offset = Position.after (bytes s) := by
  rw [positionAt, List.take_of_length_le (by rw [length_bytes]; exact h)]

end Text
end ScriptSpacing
