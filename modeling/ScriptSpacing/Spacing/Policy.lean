import ScriptSpacing.Spacing.Pair

/-!
# `Spacing.Policy` — which nodes take space inside their parentheses

A few kinds always take space and a few never do. The rest inherit the general rule: an expression takes
space. An expression statement is the exception to the exception: it takes space only when its
parentheses are not already its expression's own, and not when they wrap a function that is called on
the spot.
-/

namespace ScriptSpacing

/-- Whether a kind of node takes space inside its parentheses. -/
inductive Policy where
  | alwaysSpace | neverSpace
  /-- the node itself decides -/
  | inherit
deriving Repr, DecidableEq, Inhabited

namespace Policy

/-- The printed name of a policy. -/
def name : Policy → String
  | .alwaysSpace => "AlwaysSpace"
  | .neverSpace  => "NeverSpace"
  | .inherit     => "Inherit"

/-- The policy for a kind. -/
def ofKind : Node.Kind → Policy
  | .literal | .special => .alwaysSpace
  | .callExpression | .functionExpression | .arrayExpression | .objectExpression
  | .jsxEmptyExpression | .jsxExpressionContainer => .neverSpace
  | _ => .inherit

end Policy

namespace Arena

/-- Whether a node is called, or constructed, and its callee is a function expression. -/
def callsFunction (ar : Arena) (n : Node) : Bool :=
  (n.callee.bind ar.get?).any (·.kind = .functionExpression)

/-- Whether an expression statement takes space: its parentheses stand outside its expression, which is
    no function called on the spot. -/
def statementTakesSpace (ar : Arena) (n : Node) : Bool :=
  match n.expression.bind ar.get? with
  | some inner => n.first ≠ inner.first && !ar.callsFunction inner
  | none       => false

/-- Whether the node of a handle takes space inside its parentheses. -/
def takesSpace (ar : Arena) (id : NodeId) : Bool :=
  match ar.get? id with
  | none => false
  | some n =>
    match Policy.ofKind n.kind with
    | .alwaysSpace => true
    | .neverSpace  => false
    | .inherit     =>
      n.kind.isExpressionLike && (n.kind ≠ .expressionStatement || ar.statementTakesSpace n)

end Arena

namespace Pair

/-- The parentheses around the node of a handle, if it takes space inside them. -/
def find? (ch : Chain) (ar : Arena) (id : NodeId) : Option Pair :=
  if ar.takesSpace id then locate? ch ar id else none

/-- What is found is located, and takes space. -/
theorem find?_eq_some_iff {ch : Chain} {ar : Arena} {id : NodeId} {p : Pair} :
    find? ch ar id = some p ↔ ar.takesSpace id = true ∧ locate? ch ar id = some p := by
  unfold find?; split <;> simp_all

end Pair
end ScriptSpacing
