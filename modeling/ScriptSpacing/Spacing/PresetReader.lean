import ScriptSpacing.Json.Members
import ScriptSpacing.Json.Skip
import ScriptSpacing.Spacing.PresetFile

/-!
# `Spacing.PresetReader` — a reader of preset files

The text is read once from front to back. A member that was read but is refused stops the reading behind it,
and behind the brace of its object if that follows at once. Members of other names are passed over, but they
must be JSON.
-/

namespace ScriptSpacing
namespace PresetFile
open Json

/-! ## Values -/

/-- A break of the grammar as a cause of refusal. -/
def orRefuse {α : Type} (r : Except (Placed Fault) α) : Except Refusal α :=
  r.mapError fun e => ⟨.notJson e.cause, e.index⟩

/-- Looks at the value that the cursor has come to; only brackets are left unread. -/
def lookAt (k : Cursor) : Except (Placed Fault) (Found × Cursor) := do
  match k.peek? with
  | none => k.faultAtNext .expectedValue
  | some c =>
    if c = 'n' then return (.null, ← readWord ['u', 'l', 'l'] k.advance)
    else if c = 't' then return (.boolean true, ← readWord ['r', 'u', 'e'] k.advance)
    else if c = 'f' then return (.boolean false, ← readWord ['a', 'l', 's', 'e'] k.advance)
    else if c = '-' then
      let (n, k) ← readNumber true k.advance
      return (.number n, k)
    else if Text.isDigit c then
      let (n, k) ← readNumber false k
      return (.number n, k)
    else if c = '"' then
      let (s, k) ← readString k.advance
      return (.string s, k)
    else if c = '[' then return (.list, k)
    else if c = '\x7b' then return (.object, k)
    else k.faultAtNext .expectedValue

/-- Refuses the value at the cursor for its type. -/
def refuseType {α : Type} (must : Expected) (k : Cursor) : Except Refusal α := do
  let (found, k) ← orRefuse (lookAt k)
  .error ⟨.wrongType found must, k.index⟩

/-- Refuses a member that has just been read. -/
def refuseMember {α : Type} (c : Cause) (k : Cursor) : Except Refusal α :=
  .error ⟨c, (passBrace k).index⟩

/-- Comes to a value, of which there must be one. -/
def toValue (k : Cursor) : Except Refusal (Char × Cursor) :=
  let k := k.skipBlanks
  match k.peek? with
  | none   => orRefuse (k.faultAtNext .endInValue)
  | some c => .ok (c, k)

/-! ## Amounts -/

/-- The integer that a number must be to stand for an amount; the cursor is after the number. -/
def toInteger (n : Json.Number) (k : Cursor) : Except Refusal Int :=
  match n with
  | .unsigned m => if m < signLimit then .ok m else .error ⟨.tooLarge m, k.index⟩
  | .negative m => .ok m
  | .float ..   => .error ⟨.wrongType (.number n) .amount, k.index⟩

/-- Reads an amount, a member of an object. -/
def readAmount (convert : Conversion) (k : Cursor) : Except Refusal (Amount × Cursor) := do
  let (c, k) ← toValue k
  if c = '-' || Text.isDigit c then
    let (n, k) ← orRefuse (readNumber (c = '-') (if c = '-' then k.advance else k))
    match convert (← toInteger n k) with
    | .ok a    => return (a, k)
    | .error e => refuseMember (.amount e) k
  else refuseType .amount k

/-- Reads the members of an object of amounts when at most `n` characters are left. -/
def readAmountsFrom (convert : Conversion) (sofar : Amounts) (first : Bool) :
    Nat → Cursor → Except Refusal (Amounts × Cursor)
  | 0, k => orRefuse (k.faultAtNext .endInObject)
  | n + 1, k => do
    match ← orRefuse (nextKey first k) with
    | (none, k) => return (sofar, passBrace k)
    | (some name, k) =>
      let (a, k) ← readAmount convert (← orRefuse (readColon k))
      readAmountsFrom convert (sofar.insert name a) false n k

/-- Reads the amounts of one side. -/
def readAmounts (convert : Conversion) (k : Cursor) : Except Refusal (Amounts × Cursor) := do
  let (c, k) ← toValue k
  if c = '\x7b' then readAmountsFrom convert .empty true k.advance.rest.length k.advance
  else refuseType .amounts k

/-! ## Records -/

/-- An object whose members of certain names are read in one way, and all others passed over. -/
structure Record (α : Type) where
  must  : Expected
  names : List String
  read  : Cursor → Except Refusal (α × Cursor)

namespace Record
variable {α : Type}

/-- Reads the members of a record when at most `n` characters are left. -/
def readMembersFrom (r : Record α) (sofar : List (String × α)) (first : Bool) :
    Nat → Cursor → Except Refusal (List (String × α) × Cursor)
  | 0, k => orRefuse (k.faultAtNext .endInObject)
  | n + 1, k => do
    match ← orRefuse (nextKey first k) with
    | (none, k) => return (sofar, passBrace k)
    | (some name, k) =>
      if r.names.contains name then
        if (sofar.lookup name).isSome then refuseMember (.repeated name) k
        else
          let (a, k) ← r.read (← orRefuse (readColon k))
          readMembersFrom r ((name, a) :: sofar) false n k
      else
        let k ← orRefuse (readColon k >>= skipValue)
        readMembersFrom r sofar false n k

/-- Reads a record's members from a list of them, which may end early. -/
def readElements (r : Record α) (first : Bool) :
    List String → Cursor → Except Refusal (List (String × α) × Cursor)
  | [], k => do return ([], ← orRefuse (closeList k))
  | name :: names, k => do
    match ← orRefuse (nextElement first k) with
    | (false, k) => return ([], ← orRefuse (closeList k))
    | (true, k) =>
      let (a, k) ← r.read k
      let (others, k) ← readElements r false names k
      return ((name, a) :: others, k)

/-- Reads a record. -/
def readFields (r : Record α) (k : Cursor) : Except Refusal (List (String × α) × Cursor) := do
  let (c, k) ← toValue k
  if c = '\x7b' then r.readMembersFrom [] true k.advance.rest.length k.advance
  else if c = '[' then r.readElements true r.names k.advance
  else refuseType r.must k

end Record

/-! ## Presets -/

/-- The amounts of both sides. -/
def sides (convert : Conversion) : Record Amounts := ⟨.sides, sideNames, readAmounts convert⟩

/-- Reads the amounts of both sides. -/
def readSides (convert : Conversion) (k : Cursor) : Except Refusal (Preset × Cursor) := do
  let (fields, k) ← (sides convert).readFields k
  return (⟨(fields.lookup Side.before.name).getD .empty, (fields.lookup Side.after.name).getD .empty⟩, k)

/-- The whole of a file. -/
def file (convert : Conversion) : Record Preset := ⟨.preset, fileNames, readSides convert⟩

/-- Reads the entries of a text. -/
def reader : Reader := fun convert text => do
  let (fields, k) ← (file convert).readFields (Cursor.start text)
  orRefuse (finish k)
  return (fields.lookup amountsName).getD .empty

/-- The preset that a text describes. -/
def read (text : String) : Except Refusal Preset := load reader text

end PresetFile
end ScriptSpacing
