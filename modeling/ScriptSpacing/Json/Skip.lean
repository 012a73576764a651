import ScriptSpacing.Json.Number
import ScriptSpacing.Json.Text

/-!
# `Json.Skip` — passing over a value of any shape

A value that nobody reads must still be JSON. `skipValue` checks that from front to back with a stack of
the brackets that are open, so its depth is bounded by nothing but the text. It alternates two steps:
`skipScalar` passes one scalar or opens one bracket, and `closeFrames` closes brackets until another
value must follow or none is open.
-/

namespace ScriptSpacing
namespace Json

/-- A bracket that is open. -/
inductive Frame where
  | list | object
deriving Repr, DecidableEq, Inhabited

/-- What stands at the front of a value. -/
inductive Opening where
  /-- a scalar, which has been passed -/
  | scalar
  /-- a bracket, which has been passed -/
  | bracket (f : Frame)
deriving Repr, DecidableEq, Inhabited

/-- Passes a scalar or an opening bracket. -/
def skipScalar (k : Cursor) : Except (Placed Fault) (Opening × Cursor) := do
  match k.peek? with
  | none => k.faultAtNext .endInValue
  | some c =>
    if c = 'n' then return (.scalar, ← readWord ['u', 'l', 'l'] k.advance)
    else if c = 't' then return (.scalar, ← readWord ['r', 'u', 'e'] k.advance)
    else if c = 'f' then return (.scalar, ← readWord ['a', 'l', 's', 'e'] k.advance)
    else if c = '-' then return (.scalar, ← skipNumber k.advance)
    else if Text.isDigit c then return (.scalar, ← skipNumber k)
    else if c = '"' then return (.scalar, ← skipString k.advance)
    else if c = '[' then return (.bracket .list, k.advance)
    else if c = '\x7b' then return (.bracket .object, k.advance)
    else k.faultAtNext .expectedValue

/-- Passes the key of a member and its colon. -/
def skipKey (k : Cursor) : Except (Placed Fault) Cursor := do
  let k := k.skipBlanks
  match k.peek? with
  | none => k.faultAtNext .endInObject
  | some c =>
    if c = '"' then
      let k ← skipString k.advance
      let k := k.skipBlanks
      match k.peek? with
      | none => k.faultAtNext .endInObject
      | some c => if c = ':' then return k.advance else k.faultAtNext .expectedColon
    else k.faultAtNext .keyNotString

/-- Passes the key that a value in an object needs. -/
def skipKeyIn (f : Frame) (k : Cursor) : Except (Placed Fault) Cursor :=
  match f with
  | .object => skipKey k
  | .list   => .ok k

/-- The character that closes a bracket. -/
def Frame.closer : Frame → Char
  | .list   => ']'
  | .object => '\x7d'

/-- The fault of a text that ends inside a bracket. -/
def Frame.atEnd : Frame → Fault
  | .list   => .endInList
  | .object => .endInObject

/-- The fault of a bracket in which neither a comma nor the end follows a value. -/
def Frame.commaOrEnd : Frame → Fault
  | .list   => .expectedListCommaOrEnd
  | .object => .expectedObjectCommaOrEnd

/-- Closes brackets after a value, innermost first; gives those that are still open when another value
    must follow, and none when no bracket is left. -/
def closeFrames : List Frame → Cursor → Except (Placed Fault) (List Frame × Cursor)
  | [], k => .ok ([], k)
  | f :: fs, k =>
    let k := k.skipBlanks
    match k.peek? with
    | none => k.faultAtNext f.atEnd
    | some c =>
      if c = ',' then .ok (f :: fs, k.advance)
      else if c = f.closer then closeFrames fs k.advance
      else k.faultAtNext f.commaOrEnd

/-- Closes a bracket that has just been opened, if it is empty. -/
def closeEmpty (f : Frame) (fs : List Frame) (k : Cursor) :
    Except (Placed Fault) (List Frame × Cursor) :=
  let k := k.skipBlanks
  match k.peek? with
  | none   => k.faultAtNext f.atEnd
  | some c => if c = f.closer then closeFrames fs k.advance else .ok (f :: fs, k)

/-- Passes a value inside the brackets `fs` and all that follows it up to the end of the outermost one,
    when at most `n` characters are left. -/
def skipFrom : Nat → List Frame → Cursor → Except (Placed Fault) Cursor
  | 0, _, k => k.faultAtNext .endInValue
  | n + 1, fs, k => do
    let (opening, k) ← skipScalar k.skipBlanks
    let (fs, k) ← match opening with
      | .scalar    => closeFrames fs k
      | .bracket f => closeEmpty f fs k
    match fs with
    | [] => return k
    | f :: fs => skipFrom n (f :: fs) (← skipKeyIn f k)

/-- Passes a value. -/
def skipValue (k : Cursor) : Except (Placed Fault) Cursor := skipFrom k.rest.length [] k

end Json
end ScriptSpacing
