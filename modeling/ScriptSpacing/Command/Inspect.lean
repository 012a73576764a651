import ScriptSpacing.Command.Outcome
import ScriptSpacing.Document
import ScriptSpacing.FileTree.Volume
import ScriptSpacing.Token.Listing

/-!
# `Command.Inspect` — showing the tokens and the pairs of a file

Two commands read one file and list what is in it, a line each with its place: the tokens, or the nodes
that stand in parentheses.
-/

namespace ScriptSpacing
namespace Command

/-- The message about a file that cannot be read. -/
def accessMessage (path : String) : AccessFault → String
  | .notFound => s!"cannot find file '{path}'"
  | .notText  => s!"'{path}' contains invalid UTF-8 data"
  | f         => s!"error reading '{path}': {f.message}"

/-- Shows what `list` makes of the text of a file: its lines, or the problem that it finds. -/
def inspect (v : Volume) (path : String) (list : String → Except Problem (List String)) : Outcome :=
  match v.readText ⟨path, []⟩ with
  | .error f => .failed [accessMessage path f]
  | .ok source =>
    match list source with
    | .error p => .failed [p.describe path source]
    | .ok l    => .said l

/-- The line for a token. -/
def tokenLine (t : Token) (p : Position) : String := s!"  {t.listing} @ {p.text}"

/-- The lines for the tokens of a text. -/
def tokenLines (path source : String) : Except Problem (List String) :=
  match Token.scan source with
  | .error e => .error (.lex e)
  | .ok ts =>
    .ok (s!"Tokens for '{path}' ({ts.length} tokens):" ::
      List.zipWith tokenLine ts (Token.positionsFrom .start ts))

/-- The line for a node in parentheses. -/
def pairLine (r : PairReport) : String :=
  let mark := if r.applicable then "" else " [not applicable]"
  s!"  {r.kind.name} ({r.opening.text} .. {r.closing.text}){mark}"

/-- The lines for the nodes of a text that stand in parentheses. -/
def pairLines (path source : String) : Except Problem (List String) :=
  match reportPairs source with
  | .error p => .error p
  | .ok rs   => .ok (s!"Parenthesized nodes in '{path}' ({rs.length}):" :: rs.map pairLine)

end Command
end ScriptSpacing
