import ScriptSpacing.Decimal.Shortest
import ScriptSpacing.Json.Number
import ScriptSpacing.Spacing.Preset
import ScriptSpacing.Text.Position
import ScriptSpacing.Text.Quoted

/-!
# `Spacing.PresetFile` — presets as JSON texts

A preset file is a JSON object whose member `whiteSpace` holds an object with the members `before` and
`after`; each of these holds amounts by name. Every one of the three members may be missing, and members
of other names hold whatever JSON they like. The two outer objects may be given as lists of their members
in that order. The entries of a file replace and extend those of the standard preset.

Reading JSON is left to a `Reader`. It knows the shape of the files, and is told what to make of the integers
that stand for amounts; what it gives are the entries of the text, or the first thing that is wrong with it:
the text may break the grammar of JSON, hold a value of the wrong type, name a member twice, or ask for an
impossible amount. The cause is placed at the byte where reading stopped.
-/

namespace ScriptSpacing
namespace PresetFile
open Json

/-! ## Names -/

/-- The name under which a file holds its amounts. -/
def amountsName : String := "whiteSpace"

/-- The names at the top of a file. -/
def fileNames : List String := [amountsName]

/-- The names under which a file holds its sides. -/
def sideNames : List String := Side.all.map Side.name

/-! ## Causes of refusal -/

/-- What a value must be. -/
inductive Expected where
  /-- the whole file -/
  | preset
  /-- the amounts of both sides -/
  | sides
  /-- the amounts of one side -/
  | amounts
  | amount
deriving Repr, DecidableEq, Inhabited

/-- What a value is. -/
inductive Found where
  | null
  | boolean (b : Bool)
  | number (n : Json.Number)
  | string (s : String)
  | list
  | object
deriving Repr, DecidableEq, Inhabited

/-- Why a text is no preset file. -/
inductive Cause where
  | notJson (f : Json.Fault)
  | wrongType (found : Found) (expected : Expected)
  /-- an integer beyond the signed ones of 64 bits -/
  | tooLarge (n : Nat)
  /-- a member that is there twice -/
  | repeated (name : String)
  | amount (e : InvalidAmount)
deriving Repr, DecidableEq, Inhabited

/-- A cause and the byte at which reading stopped. -/
abbrev Refusal : Type := Placed Cause

namespace Expected

/-- The words for what a value must be. -/
def words : Expected → String
  | .preset  => "struct RawConfig"
  | .sides   => "struct RawWhitespace"
  | .amounts => "a map"
  | .amount  => "i64"

end Expected

namespace Found

/-- The words for what a value is. -/
def words : Found → String
  | .null                  => "null"
  | .boolean b             => s!"boolean `{b}`"
  | .number (.unsigned n)  => s!"integer `{n}`"
  | .number (.negative n)  => s!"integer `{n}`"
  | .number (.float neg x) =>
    let sign := if neg then "-" else ""
    s!"floating point `{sign}{(Decimal.shortest x).text}`"
  | .string s              => s!"string {Text.quotedString s}"
  | .list                  => "sequence"
  | .object                => "map"

end Found

namespace Cause

/-- The words for a cause. -/
def words : Cause → String
  | .notJson f            => f.message
  | .wrongType found must => s!"invalid type: {found.words}, expected {must.words}"
  | .tooLarge n           => s!"invalid value: integer `{n}`, expected {Expected.amount.words}"
  | .repeated name        => s!"duplicate field `{name}`"
  | .amount e             => e.message

/-- The message about a cause, without its place. -/
def message (c : Cause) : String := s!"invalid config: {c.words}"

end Cause

/-- The message about a refused text: the cause, and the line and column of the last byte read. -/
def describe (text : String) (r : Refusal) : String :=
  let stop := Text.positionAt text r.index
  s!"{r.cause.message} at line {stop.line} column {stop.column - 1}"

/-! ## Loading -/

/-- What to make of the integers that stand for amounts. -/
abbrev Conversion : Type := Int → Except InvalidAmount Amount

/-- A reader of preset files: the entries of a text, or why there are none. -/
abbrev Reader : Type := Conversion → String → Except Refusal Preset

/-- The preset that a text describes: the standard one with the entries of the text in place. -/
def load (reader : Reader) (text : String) : Except Refusal Preset :=
  (reader Amount.ofInt text).map Preset.standard.overriddenBy

end PresetFile
end ScriptSpacing
