import ScriptSpacing.Json.Cursor
import ScriptSpacing.Text.Class

/-!
# `Json.Text` — string literals

`readString` reads a string literal whose opening quote has been read, and gives its characters with
escapes resolved. `skipString` only finds its end: it takes any four hexadecimal digits for an escape,
also those that stand for half a surrogate pair.
-/

namespace ScriptSpacing
namespace Json
open Text

/-- The value of a hexadecimal digit. -/
def hexDigit? (c : Char) : Option Nat :=
  if isDigit c then some (c.toNat - '0'.toNat)
  else if 'a' ≤ c && c ≤ 'f' then some (c.toNat - 'a'.toNat + 10)
  else if 'A' ≤ c && c ≤ 'F' then some (c.toNat - 'A'.toNat + 10)
  else none

/-- The value of hexadecimal digits, most significant first. -/
def hexValue? (cs : List Char) : Option Nat :=
  cs.foldl (fun acc c => do return (← acc) * 16 + (← hexDigit? c)) (some 0)

/-- Reads four hexadecimal digits. What are not four digits is passed over as four bytes. -/
def readHex (k : Cursor) : Result Nat :=
  if k.bytesWithin 4 < 4 then .error ⟨.endInString, k.index + k.bytesWithin 4⟩
  else
    match hexValue? (k.rest.take 4) with
    | some n => .ok (n, ⟨k.rest.drop 4, k.index + 4⟩)
    | none   => .error ⟨.invalidEscape, k.index + 4⟩

/-- Whether a unit begins a surrogate pair. -/
def isLeading (n : Nat) : Bool := 0xd800 ≤ n && n ≤ 0xdbff

/-- Whether a unit ends a surrogate pair. -/
def isTrailing (n : Nat) : Bool := 0xdc00 ≤ n && n ≤ 0xdfff

/-- Reads the character `c` that the second half of a surrogate pair must have next. -/
def readPairMark (c : Char) (k : Cursor) : Except (Placed Fault) Cursor :=
  match k.peek? with
  | none   => k.fault .endInString
  | some d => if d = c then .ok k.advance else .error ⟨.endOfHexEscape, k.index + 1⟩

/-- Reads a code point escape after its `u`: one unit, or two that form a surrogate pair. -/
def readCodePoint (k : Cursor) : Except (Placed Fault) (Char × Cursor) := do
  let (n, k) ← readHex k
  if isTrailing n then k.fault .loneSurrogate
  else if isLeading n then
    let k ← readPairMark '\\' k
    let k ← readPairMark 'u' k
    let (m, k) ← readHex k
    if isTrailing m then
      return (Char.ofNat ((n - 0xd800) * 0x400 + (m - 0xdc00) + 0x10000), k)
    else k.fault .loneSurrogate
  else return (Char.ofNat n, k)

/-- The character that a one-letter escape stands for. -/
def shortEscape? : Char → Option Char
  | '"'  => some '"'
  | '\\' => some '\\'
  | '/'  => some '/'
  | 'b'  => some '\x08'
  | 'f'  => some '\x0c'
  | 'n'  => some '\n'
  | 'r'  => some '\r'
  | 't'  => some '\t'
  | _    => none

/-- Reads an escape after its backslash. -/
def readEscape (k : Cursor) : Result Char :=
  match k.peek? with
  | none => k.fault .endInString
  | some c =>
    match shortEscape? c with
    | some d => .ok (d, k.advance)
    | none =>
      if c = 'u' then readCodePoint k.advance else .error ⟨.invalidEscape, k.index + 1⟩

/-- Passes over an escape after its backslash. -/
def skipEscape (k : Cursor) : Except (Placed Fault) Cursor :=
  match k.peek? with
  | none => k.fault .endInString
  | some c =>
    if (shortEscape? c).isSome then .ok k.advance
    else if c = 'u' then (·.2) <$> readHex k.advance
    else .error ⟨.invalidEscape, k.index + 1⟩

/-- The characters that no string may hold unescaped. -/
def isControl (c : Char) : Bool := c.toNat < 0x20

/-- Reads a string up to its closing quote, when at most `n` characters are left. `taken` holds its
    characters so far, last one first. -/
def readStringFrom (taken : List Char) : Nat → Cursor → Result String
  | 0, k => k.fault .endInString
  | n + 1, k =>
    match k.peek? with
    | none => k.fault .endInString
    | some c =>
      if c = '"' then .ok (String.ofList taken.reverse, k.advance)
      else if c = '\\' then
        match readEscape k.advance with
        | .ok (d, k') => readStringFrom (d :: taken) n k'
        | .error e    => .error e
      else if isControl c then .error ⟨.controlCharacter, k.index + 1⟩
      else readStringFrom (c :: taken) n k.advance

/-- Reads a string whose opening quote has been read. -/
def readString (k : Cursor) : Result String := readStringFrom [] k.rest.length k

/-- Passes over a string up to its closing quote, when at most `n` characters are left. -/
def skipStringFrom : Nat → Cursor → Except (Placed Fault) Cursor
  | 0, k => k.fault .endInString
  | n + 1, k =>
    match k.peek? with
    | none => k.fault .endInString
    | some c =>
      if c = '"' then .ok k.advance
      else if c = '\\' then
        match skipEscape k.advance with
        | .ok k'   => skipStringFrom n k'
        | .error e => .error e
      else if isControl c then k.fault .controlCharacter
      else skipStringFrom n k.advance

/-- Passes over a string whose opening quote has been read. -/
def skipString (k : Cursor) : Except (Placed Fault) Cursor := skipStringFrom k.rest.length k

end Json
end ScriptSpacing
