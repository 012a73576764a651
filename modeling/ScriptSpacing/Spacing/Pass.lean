import ScriptSpacing.Spacing.Directive

/-!
# `Spacing.Pass` — spacing a whole tree

The pass visits every node under the root, finds the pairs that take space, and records two limits for
each. Only then are the limits applied, in the order of the visit, so no pair is looked for in a chain
that is half edited.
-/

namespace ScriptSpacing

/-- What a pass did. -/
structure Tally where
  /-- nodes under the root -/
  visited : Nat := 0
  /-- nodes whose parentheses took limits -/
  pairs   : Nat := 0
  /-- tokens put in, taken out or rewritten -/
  changed : Nat := 0
deriving Repr, DecidableEq, Inhabited

namespace Tally

/-- Whether the pass changed the tokens. -/
def isChange (t : Tally) : Bool := t.changed > 0

end Tally

namespace Chain

/-- The pairs that take space, in the order of the nodes. -/
def pairsOf (ch : Chain) (ar : Arena) (nodes : List NodeId) : List Pair :=
  nodes.filterMap (Pair.find? ch ar)

/-- Spaces the parentheses of every node under `root`. -/
def respace (ch : Chain) (ar : Arena) (root : NodeId) (preset : Preset) : Chain × Tally :=
  let nodes := ar.preorder root
  let pairs := ch.pairsOf ar nodes
  let edited := Directive.applyAll (pairs.flatMap Pair.directives) preset ch
  (edited.chain, ⟨nodes.length, pairs.length, edited.changed⟩)

end Chain
end ScriptSpacing
