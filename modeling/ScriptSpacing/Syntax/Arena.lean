import ScriptSpacing.Syntax.Kind
import ScriptSpacing.Token.Chain

/-!
# `Syntax.Arena` — syntax nodes and where they are kept

A node knows its kind, the first and last token of its span and its children; an arena keeps nodes in
the order of their allocation. Parents are allocated after their children, but an arena does not insist
on it: nodes may be shared and may name children that do not exist. Handles are numbers without a bound.
Where they have 32 bits, an arena holds at most 2³² nodes, and the program stops at the next one; nothing is
said here about an arena beyond that.

`preorder` lists the nodes under a root, parents first. It works through a stack of pending nodes, so
it needs no recursion over the tree; its budget is the most steps any acyclic arena of this size and
width can take.
-/

namespace ScriptSpacing

/-- The handle of a node, counted in the order of allocation. -/
abbrev NodeId := Nat

/-- A syntax node. -/
structure Node where
  kind       : Node.Kind
  /-- the first token of the span -/
  first      : Option TokenId
  /-- the last token of the span -/
  last       : Option TokenId
  /-- the wrapped expression of an expression statement -/
  expression : Option NodeId := none
  /-- the callee of a call or a construction -/
  callee     : Option NodeId := none
  /-- all children in source order, `expression` and `callee` among them -/
  children   : List NodeId := []
deriving Repr, DecidableEq, Inhabited

/-- The nodes of one document, in the order of their allocation. -/
structure Arena where
  nodes : Array Node := #[]
deriving Repr, DecidableEq, Inhabited

namespace Arena

/-- The arena without nodes. -/
def empty : Arena := {}

/-- The number of nodes. -/
def size (ar : Arena) : Nat := ar.nodes.size

/-- The node of a handle. -/
def get? (ar : Arena) (id : NodeId) : Option Node := ar.nodes[id]?

/-- The handle that the next allocated node gets. -/
def fresh (ar : Arena) : NodeId := ar.nodes.size

/-- Allocates a node. -/
def push (ar : Arena) (n : Node) : Arena := ⟨ar.nodes.push n⟩

@[simp] theorem size_push (ar : Arena) (n : Node) : (ar.push n).size = ar.size + 1 := by
  simp [size, push]

@[simp] theorem get?_push_fresh (ar : Arena) (n : Node) : (ar.push n).get? ar.fresh = some n := by
  simp [get?, push, fresh]

/-- **Allocation keeps the nodes that were there.** -/
theorem get?_push_of_lt {ar : Arena} {id : NodeId} (n : Node) (h : id < ar.size) :
    (ar.push n).get? id = ar.get? id := by
  simp only [get?, push]
  rw [Array.getElem?_push_lt h, Array.getElem?_eq_getElem h]

/-! ## Pre-order -/

/-- The most children that a node of the arena has. -/
def width (ar : Arena) : Nat := ar.nodes.foldl (fun w n => max w n.children.length) 0

/-- The most handles that a traversal of an acyclic arena takes off its stack: a path meets each node
    at most once, and each node leads to at most `width` others. -/
def budget (ar : Arena) : Nat := Nat.pow (ar.width + 1) ar.size

/-- Visits the `pending` handles in order, each before its children, after the handles `visited` (last
    one first). Handles outside the arena contribute nothing. -/
def walk (ar : Arena) : Nat → List NodeId → List NodeId → List NodeId
  | n + 1, id :: pending, visited =>
    match ar.get? id with
    | some node => walk ar n (node.children ++ pending) (id :: visited)
    | none => walk ar n pending visited
  | _, _, visited => visited.reverse

/-- The handles under `root`, parents before children, children in source order; a shared node appears
    once for each path to it. -/
def preorder (ar : Arena) (root : NodeId) : List NodeId := ar.walk ar.budget [root] []

end Arena
end ScriptSpacing
