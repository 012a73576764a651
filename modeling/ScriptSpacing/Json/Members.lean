import ScriptSpacing.Json.Text

/-!
# `Json.Members` — from one member to the next

The steps between the values of an object or a list. Reading a value is left to the caller, so that each
kind of value can be read where it is expected. A `first` member is the one that no comma precedes.
-/

namespace ScriptSpacing
namespace Json

/-! ## Objects -/

/-- Reads the key that the cursor has come to, if it is one. -/
def readKey (k : Cursor) : Except (Placed Fault) (Option String × Cursor) :=
  match k.peek? with
  | none => k.faultAtNext .endInValue
  | some c =>
    if c = '"' then
      match readString k.advance with
      | .ok (key, k') => .ok (some key, k')
      | .error e      => .error e
    else if c = '\x7d' then k.faultAtNext .trailingComma
    else k.faultAtNext .keyNotString

/-- Reads the key of the next member; there is none at the closing brace, which is left unread. -/
def nextKey (first : Bool) (k : Cursor) : Except (Placed Fault) (Option String × Cursor) :=
  let k := k.skipBlanks
  match k.peek? with
  | none => k.faultAtNext .endInObject
  | some c =>
    if c = '\x7d' then .ok (none, k)
    else if first then readKey k
    else if c = ',' then readKey k.advance.skipBlanks
    else k.faultAtNext .expectedObjectCommaOrEnd

/-- Reads the colon after a key. -/
def readColon (k : Cursor) : Except (Placed Fault) Cursor :=
  let k := k.skipBlanks
  match k.peek? with
  | none   => k.faultAtNext .endInObject
  | some c => if c = ':' then .ok k.advance else k.faultAtNext .expectedColon

/-- Past the closing brace of an object, if it is next. -/
def passBrace (k : Cursor) : Cursor :=
  let k := k.skipBlanks
  if k.peek? = some '\x7d' then k.advance else k

/-! ## Lists -/

/-- Comes to the next element of a list; there is none at the closing bracket, which is left unread. -/
def nextElement (first : Bool) (k : Cursor) : Except (Placed Fault) (Bool × Cursor) :=
  let k := k.skipBlanks
  match k.peek? with
  | none => k.faultAtNext .endInList
  | some c =>
    if c = ']' then .ok (false, k)
    else if first then .ok (true, k)
    else if c = ',' then
      let k := k.advance.skipBlanks
      match k.peek? with
      | none   => k.faultAtNext .endInValue
      | some c => if c = ']' then k.faultAtNext .trailingComma else .ok (true, k)
    else k.faultAtNext .expectedListCommaOrEnd

/-- Reads the closing bracket of a list that can hold no more elements. -/
def closeList (k : Cursor) : Except (Placed Fault) Cursor :=
  let k := k.skipBlanks
  match k.peek? with
  | none => k.faultAtNext .endInList
  | some c =>
    if c = ']' then .ok k.advance
    else if c = ',' then
      let k := k.advance.skipBlanks
      k.faultAtNext (if k.peek? = some ']' then .trailingComma else .trailingCharacters)
    else k.faultAtNext .trailingCharacters

/-- Checks that nothing but whitespace is left. -/
def finish (k : Cursor) : Except (Placed Fault) Unit :=
  let k := k.skipBlanks
  if k.rest.isEmpty then .ok () else k.faultAtNext .trailingCharacters

end Json
end ScriptSpacing
