import ScriptSpacing.Json.Fault

/-!
# `Json.Cursor` — reading a JSON text from front to back

A cursor is the text that is left and the number of bytes before it. Reading stops at the first fault,
placed at a byte: either at the cursor itself, or just beyond the next byte when that byte has been
looked at and refused. Both are offsets into the bytes of the text, and the second may fall inside a
character.
-/

namespace ScriptSpacing
namespace Json

/-- A place in a text: what is left, and how many bytes come before. -/
structure Cursor where
  rest  : List Char
  index : Nat
deriving Repr, DecidableEq, Inhabited

/-- A failure of kind `ε` at a byte of the text. -/
structure Placed (ε : Type) where
  cause : ε
  index : Nat
deriving Repr, DecidableEq, Inhabited

/-- The result of reading: a value and the cursor after it, or a fault. -/
abbrev Result (α : Type) : Type := Except (Placed Fault) (α × Cursor)

namespace Cursor

/-- The beginning of a text. -/
def start (s : String) : Cursor := ⟨s.toList, 0⟩

/-- Past one character. -/
def advance : Cursor → Cursor
  | ⟨c :: cs, i⟩ => ⟨cs, i + c.utf8Size⟩
  | ⟨[], i⟩      => ⟨[], i⟩

/-- Past the characters that satisfy `p`. -/
def skipWhile (p : Char → Bool) (k : Cursor) : Cursor :=
  go k.rest k.index
where
  /-- Drops characters from the front of `rest` and counts their bytes. -/
  go : List Char → Nat → Cursor
    | c :: cs, i => if p c then go cs (i + c.utf8Size) else ⟨c :: cs, i⟩
    | [], i      => ⟨[], i⟩

/-- The whitespace of JSON. -/
def isBlank (c : Char) : Bool := c = ' ' || c = '\n' || c = '\t' || c = '\r'

/-- Past whitespace. -/
def skipBlanks (k : Cursor) : Cursor := k.skipWhile isBlank

/-- The next character. -/
def peek? (k : Cursor) : Option Char := k.rest.head?

/-- A fault at the cursor. -/
def fault {α : Type} (k : Cursor) (f : Fault) : Except (Placed Fault) α := .error ⟨f, k.index⟩

/-- A fault at the next byte, which was looked at; at the end of the text there is none. -/
def faultAtNext {α : Type} (k : Cursor) (f : Fault) : Except (Placed Fault) α :=
  .error ⟨f, if k.rest.isEmpty then k.index else k.index + 1⟩

/-- The bytes of a list of characters. -/
def byteCount : List Char → Nat
  | []      => 0
  | c :: cs => c.utf8Size + byteCount cs

/-- The bytes of the next `n` characters, or of as many as are left. -/
def bytesWithin (n : Nat) (k : Cursor) : Nat := byteCount (k.rest.take n)

theorem skipWhile_go_eq (p : Char → Bool) (cs : List Char) (i : Nat) :
    skipWhile.go p cs i = ⟨cs.dropWhile p, i + byteCount (cs.takeWhile p)⟩ := by
  induction cs generalizing i with
  | nil => rfl
  | cons c cs ih =>
      by_cases h : p c <;> simp [skipWhile.go, byteCount, h, ih, Nat.add_assoc]

/-- **Skipping drops the longest prefix of the class.** -/
@[simp] theorem rest_skipWhile (p : Char → Bool) (k : Cursor) :
    (k.skipWhile p).rest = k.rest.dropWhile p := by
  simp [skipWhile, skipWhile_go_eq]

end Cursor

/-- Reads the rest of a word of ASCII letters. -/
def readWord : List Char → Cursor → Except (Placed Fault) Cursor
  | [], k => .ok k
  | w :: ws, k =>
    match k.rest with
    | []     => k.fault .endInValue
    | c :: _ => if c = w then readWord ws k.advance else k.faultAtNext .expectedIdent

end Json
end ScriptSpacing
