import ScriptSpacing.Spacing.Pass
import ScriptSpacing.Syntax.Parse
import ScriptSpacing.Text.Position
import ScriptSpacing.Text.Quoted
import ScriptSpacing.Token.Scan

/-!
# `Document` — from a text to a spaced text

A document is a text cut into a chain of tokens together with the tree of its code. Reading one fails
with a `Problem`, which is a text that cannot be cut or code outside the grammar. Every problem but the
end of the tokens has a place in the text: the byte at which a cut failed, or the first byte of the
token that was not wanted.
-/

namespace ScriptSpacing

/-! ## Problems -/

namespace LexError

/-- The words for a text that cannot be cut. -/
def message (e : LexError) : String :=
  match e.flaw with
  | .unterminatedString    => s!"unterminated string literal starting at byte {e.offset}"
  | .unterminatedComment   => s!"unterminated block comment starting at byte {e.offset}"
  | .templateLiteral       => s!"template literals are not supported (byte {e.offset})"
  | .unexpectedCharacter c => s!"unexpected character {Text.quotedChar c} at byte {e.offset}"

end LexError

/-- Why a text cannot be read as a document. -/
inductive Problem where
  | lex (e : LexError)
  | parse (e : ParseError)
deriving Repr, DecidableEq, Inhabited

namespace Token

/-- The byte at which the `i`-th of the tokens of a text begins. -/
def offset? : List Token → Nat → Option Nat
  | [], _          => none
  | _ :: _, 0      => some 0
  | t :: ts, i + 1 => (offset? ts i).map (t.size + ·)

/-- The positions at which the tokens of a text begin, the first of them at `p`. -/
def positionsFrom (p : Position) : List Token → List Position
  | []      => []
  | t :: ts => p :: positionsFrom (p.past (Text.bytes t.text)) ts

end Token

namespace Problem

/-- The words for a problem. -/
def message : Problem → String
  | .lex e   => e.message
  | .parse e => e.message

/-- The byte of `source` that a problem of it is about, unless that is its end. -/
def offset? (source : String) : Problem → Option Nat
  | .lex e => some e.offset
  | .parse e =>
    match e.token?, Token.scan source with
    | some id, .ok ts => Token.offset? ts id
    | _, _            => none

/-- A problem with its place in a file: the path, the line and column if it has them, the words. -/
def describe (path source : String) (p : Problem) : String :=
  match p.offset? source with
  | some k => s!"{path}:{(Text.positionAt source k).text}: error: {p.message}"
  | none => s!"{path}: error: {p.message}"

end Problem

/-! ## Documents -/

/-- A text as tokens and tree. -/
structure Document where
  chain : Chain
  tree  : Tree
deriving Repr, Inhabited

namespace Document

/-- Reads a text. -/
def read (source : String) : Except Problem Document :=
  match Token.scan source with
  | .error e => .error (.lex e)
  | .ok ts =>
    let chain := Chain.ofList ts
    match Tree.ofChain chain with
    | .error e => .error (.parse e)
    | .ok tree => .ok ⟨chain, tree⟩

/-- Spaces the parentheses of a document, and says what that took. -/
def respace (d : Document) (preset : Preset) : Chain × Tally :=
  d.chain.respace d.tree.arena d.tree.root preset

end Document

/-- The text `source` with its parentheses spaced. -/
def formatSource (source : String) (preset : Preset) : Except Problem String :=
  match Document.read source with
  | .error p => .error p
  | .ok d    => .ok (d.respace preset).1.source

/-! ## The pairs of a document -/

/-- A node that stands in parentheses: where they are, and whether it takes space inside them. -/
structure PairReport where
  kind       : Node.Kind
  opening    : Position
  closing    : Position
  applicable : Bool
deriving Repr, DecidableEq, Inhabited

namespace Document

/-- The report on one node of a document whose tokens begin at `positions`. -/
def reportNode? (d : Document) (positions : Array Position) (id : NodeId) : Option PairReport := do
  let n ← d.tree.arena.get? id
  let p ← Pair.locate? d.chain d.tree.arena id
  let place (t : TokenId) := positions.getD t .start
  return ⟨n.kind, place p.opening, place p.closing, d.tree.arena.takesSpace id⟩

/-- The nodes of a document that stand in parentheses, in pre-order. -/
def pairReports (d : Document) : List PairReport :=
  let positions := (Token.positionsFrom .start d.chain.toList).toArray
  (d.tree.arena.preorder d.tree.root).filterMap (d.reportNode? positions)

end Document

/-- The nodes of a text that stand in parentheses. -/
def reportPairs (source : String) : Except Problem (List PairReport) :=
  match Document.read source with
  | .error p => .error p
  | .ok d    => .ok d.pairReports

end ScriptSpacing
