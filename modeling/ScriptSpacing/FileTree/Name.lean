import ScriptSpacing.Text.Lossy

/-!
# `FileTree.Name` — names of files and folders

A name is a list of bytes. Mostly these are the UTF-8 form of a text, but they need not be: every byte other
than zero and the slash may stand in a name. Names are compared by their bytes.
-/

namespace ScriptSpacing

/-- The name of a file or a folder. -/
structure Name where
  bytes : List UInt8
deriving Repr, DecidableEq, Inhabited

/-- The byte between the names of a path. -/
def slash : UInt8 := 0x2F

namespace Name

/-- The byte in front of an extension. -/
def dot : UInt8 := 0x2E

/-- The name that is a text. -/
def ofString (s : String) : Name := ⟨Text.bytes s⟩

instance : Coe String Name := ⟨ofString⟩

/-- The text that a name is, if it is one. -/
def text? (n : Name) : Option String := String.fromUTF8? ⟨n.bytes.toArray⟩

/-- The extension of a name: what follows its last dot, unless nothing precedes that dot. -/
def extension? (n : Name) : Option (List UInt8) :=
  let behind := (n.bytes.reverse.takeWhile (· ≠ dot)).reverse
  if behind.length + 1 < n.bytes.length then some behind else none

/-- Whether a name comes before another, byte by byte. -/
def before (a b : Name) : Bool := a.bytes.lex b.bytes (· < ·)

theorem ofString_injective {s t : String} (h : ofString s = ofString t) : s = t := by
  rw [← Text.shown_bytes s, ← Text.shown_bytes t, Name.mk.inj h]

/-- **A name is a text or has none.** -/
theorem text?_eq_some_iff {n : Name} {s : String} : n.text? = some s ↔ n = s := by
  rw [text?, Text.fromUTF8?_eq_some_iff, ofString, Text.bytes]
  constructor
  · intro h
    rw [String.toUTF8_eq_toByteArray] at h
    rw [h]
  · rintro rfl
    rfl

end Name
end ScriptSpacing
