import ScriptSpacing.Syntax.Arena

/-!
# `Spacing.Pair` — the parentheses around a node

A tree says nothing of parentheses, so the pair around a node is found again among the tokens. The
candidate opening is the node's first token if that is a `(`, and otherwise the code token before it; a
binary-like node always takes the token before, since its own first token may be the `(` of an operand.
From the opening a scan to the right counts depth up to the token that closes it. The pair is the node's
own when the closing token is at the node's end: it is the last token, or the code token on either side
of it is.
-/

namespace ScriptSpacing

/-- A parenthesis and the one that closes it. -/
structure Pair where
  opening : TokenId
  closing : TokenId
deriving Repr, DecidableEq, Inhabited

namespace Chain

/-- What a token adds to the depth of parentheses. -/
def depthStep (t : Token) : Int := if t.is "(" then 1 else if t.is ")" then -1 else 0

/-- The first token from `cursor` on after which the depth, starting at `depth`, is zero. -/
def closeFrom (ch : Chain) : Nat → Int → Option TokenId → Option TokenId
  | n + 1, depth, some id =>
    match ch.get? id with
    | some t =>
      if depth + depthStep t = 0 then some id
      else closeFrom ch n (depth + depthStep t) (ch.next id)
    | none => none
  | _, _, _ => none

/-- The token that closes the parenthesis `opening`. -/
def closing? (ch : Chain) (opening : TokenId) : Option TokenId :=
  if ch.contains opening then ch.closeFrom ch.slots.size 0 (some opening) else none

end Chain

namespace Pair

/-- The token that opens the parentheses around a node of kind `kind` beginning at `first`, if there
    are any. -/
def candidate? (ch : Chain) (kind : Node.Kind) (first : TokenId) : Option TokenId :=
  if kind.isBinaryLike || !ch.test (·.is "(") first then ch.prevCode? first else some first

/-- Whether the parenthesis `closing` is at the end of a node that ends at `last`. -/
def closesAt (ch : Chain) (closing last : TokenId) : Bool :=
  closing == last || ch.prevCode? closing == some last || ch.nextCode? closing == some last

/-- The parentheses around a span of tokens that belongs to a node of kind `kind`. -/
def around? (ch : Chain) (kind : Node.Kind) (first last : TokenId) : Option Pair := do
  let opening ← (candidate? ch kind first).filter (ch.test (·.is "("))
  let closing ← ch.closing? opening
  if closesAt ch closing last then some ⟨opening, closing⟩ else none

/-- The parentheses around a node, whatever its kind. -/
def ofNode? (ch : Chain) (n : Node) : Option Pair := do
  let first ← n.first
  let last ← n.last
  around? ch n.kind first last

/-- The parentheses around the node of a handle. -/
def locate? (ch : Chain) (ar : Arena) (id : NodeId) : Option Pair := (ar.get? id).bind (ofNode? ch)

end Pair
end ScriptSpacing
