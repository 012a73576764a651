import ScriptSpacing.Syntax.Grammar.Statement

/-!
# `Proofs.Syntax.Derivation` — the grammar as rules, and what it means to read them

`Rule` is the grammar written down: which symbols, in order, a node of a kind is made of, and as which
`Part` of a larger text such a node may stand. `Reads ar code ps p ids q` says that the code tokens from
position `p` up to `q` are read as the symbols `ps`, and that the parts among them are the nodes `ids` of the
arena. Its constructors take one symbol off the front: a token, a part that is a node of its own, a part in
brackets that leave no node, or a part that a narrower one covers.

A node is the record of how it was read (`Node.spanning`): its span is what its own symbols took, without
the parentheses around it.

The levels of binary operators are exact. The left operand of an operator is read at `leftLevel`, the right
one at `rightLevel`; together they say which way operators of one level group.
-/

namespace ScriptSpacing

/-- The node of a kind whose symbols were read from position `p` up to `q`, with the parts `children`. -/
def Node.spanning (code : Code) (kind : Node.Kind) (children : List NodeId) (p q : Nat) : Node where
  kind       := kind
  first      := (code.at? p).map (·.1)
  last       := (code.at? (q - 1)).map (·.1)
  expression := if kind = .expressionStatement then children.head? else none
  callee     := if kind = .callExpression ∨ kind = .newExpression then children.head? else none
  children   := children

/-- An arena that has every node of another. -/
def Arena.Extends (ar' ar : Arena) : Prop :=
  ∀ id n, ar.get? id = some n → ar'.get? id = some n

/-- Allocating keeps every node. -/
theorem Arena.extends_push (ar : Arena) (n : Node) : (ar.push n).Extends ar := by
  intro id m hm
  rw [get?_push_of_lt]
  · exact hm
  · rw [get?, Array.getElem?_eq_some_iff] at hm
    exact hm.1

/-- Allocating adds one node, under the fresh handle. -/
theorem Arena.get?_push_cases {ar : Arena} {n m : Node} {id : NodeId}
    (h : (ar.push n).get? id = some m) : (id = ar.fresh ∧ m = n) ∨ ar.get? id = some m := by
  simp only [get?, push, Array.getElem?_push] at h
  split at h
  · next hid =>
      cases h
      exact .inl ⟨hid, rfl⟩
  · exact .inr h

namespace Grammar

/-! ## Symbols -/

/-- What a single token must be. -/
inductive Terminal where
  | text (s : String)
  | identifier | literal
  /-- a literal that may be the key of a property -/
  | literalKey
  /-- a word that may name a property -/
  | name
  | unaryOperator | updateOperator | assignmentOperator
  | binaryOperator (level : Nat) (kind : Node.Kind)
deriving DecidableEq

/-- Whether a token is what a terminal asks for. -/
def Terminal.accepts (t : Token) : Terminal → Bool
  | .text s => t.is s
  | .identifier => t.kind = .identifier
  | .literal => t.kind = .numeric || t.kind = .string || t.kind = .boolean || t.kind = .null
  | .literalKey => t.kind = .string || t.kind = .numeric
  | .name => namesProperty t
  | .unaryOperator => isUnaryOperator t
  | .updateOperator => isUpdateOperator t
  | .assignmentOperator => isAssignmentOperator t
  | .binaryOperator level kind => binaryOperator? t = some (level, kind)

/-- The places in a text where a node may stand. -/
inductive Part where
  | statement | block | declarator
  | expression | assignment | conditional
  /-- an operand chain of operators that bind at least this tightly -/
  | binary (least : Nat)
  | unary
  /-- what members and calls may follow -/
  | operand
  /-- what members may follow after `new` -/
  | callee
  | construction | primary
  | binding | name | key | property
deriving DecidableEq

/-- A token or a part. -/
inductive Symbol where
  | token (t : Terminal)
  | part (g : Part)
deriving DecidableEq

/-- A token of a text. -/
abbrev Symbol.text (s : String) : Symbol := .token (.text s)

/-- The part that a goal reads. -/
def Part.ofGoal : Goal → Part
  | .statement    => .statement
  | .expression   => .expression
  | .assignment   => .assignment
  | .binary least => .binary least
  | .unary        => .unary
  | .construction => .construction

/-- **A part takes every text of the narrower parts it covers.** -/
inductive Part.Covers : Part → Part → Prop where
  | block : Covers .statement .block
  | assignment : Covers .expression .assignment
  | conditional : Covers .assignment .conditional
  | binary : Covers .conditional (.binary 1)
  | tighter {least least' : Nat} : least ≤ least' → Covers (.binary least) (.binary least')
  | unary (least : Nat) : Covers (.binary least) .unary
  | operand : Covers .unary .operand
  | operandConstruction : Covers .operand .construction
  | operandPrimary : Covers .operand .primary
  | calleeConstruction : Covers .callee .construction
  | calleePrimary : Covers .callee .primary
  | name : Covers .key .name

/-- Brackets that leave no node: a part may be a wider one between them. -/
inductive Part.Wraps : Part → String → Part → String → Prop where
  | group : Wraps .primary "(" .expression ")"
  | computedKey : Wraps .key "[" .assignment "]"

/-! ## Lists of symbols -/

/-- Symbols that may be left out. -/
inductive Optional (ps : List Symbol) : List Symbol → Prop where
  | absent  : Optional ps []
  | present : Optional ps ps

/-- Parts with commas between them; a comma may trail. -/
inductive Items (g : Part) : List Symbol → Prop where
  | nil : Items g []
  | last : Items g [.part g]
  | cons {ps : List Symbol} : Items g ps → Items g (.part g :: .text "," :: ps)

/-- The elements of an array, where a comma may stand without an element. -/
inductive Elements : List Symbol → Prop where
  | nil : Elements []
  | last : Elements [.part .assignment]
  | hole {ps : List Symbol} : Elements ps → Elements (.text "," :: ps)
  | cons {ps : List Symbol} : Elements ps → Elements (.part .assignment :: .text "," :: ps)

/-- Further parts, each after a comma. -/
inductive Tail (g : Part) : List Symbol → Prop where
  | nil : Tail g []
  | cons {ps : List Symbol} : Tail g ps → Tail g (.text "," :: .part g :: ps)

/-- The arguments of a call. -/
def IsArguments (ps : List Symbol) : Prop :=
  ∃ items, Items .assignment items ∧ ps = .text "(" :: items ++ [.text ")"]

/-- The parameters of an arrow function. -/
def IsParameters (ps : List Symbol) : Prop := IsArguments ps ∨ ps = [.part .binding]

/-! ## Rules -/

/-- The level at which the left operand of an operator is read: `**` takes no operator of its own. -/
def leftLevel (level : Nat) : Nat := if level = exponentLevel then level + 1 else level

/-- **The grammar**: the part that a node of a kind may stand as, and the symbols it is made of. -/
inductive Rule : Part → Node.Kind → List Symbol → Prop where
  -- leaves
  | identifier : Rule .primary .identifier [.token .identifier]
  | literal : Rule .primary .literal [.token .literal]
  | this : Rule .primary .thisExpression [.text "this"]
  | binding : Rule .binding .identifier [.token .identifier]
  | name : Rule .name .identifier [.token .name]
  | literalKey : Rule .key .literal [.token .literalKey]
  -- operands
  | functionExpression {name args : List Symbol} : Optional [.part .binding] name →
      IsArguments args →
      Rule .primary .functionExpression (.text "function" :: name ++ args ++ [.part .block])
  | array {ps : List Symbol} : Elements ps →
      Rule .primary .arrayExpression (.text "[" :: ps ++ [.text "]"])
  | object {ps : List Symbol} : Items .property ps →
      Rule .primary .objectExpression (.text "\x7b" :: ps ++ [.text "\x7d"])
  | property {value : List Symbol} : Optional [.text ":", .part .assignment] value →
      Rule .property .property (.part .key :: value)
  | namedMember {dot : String} : dot = "." ∨ dot = "?." →
      Rule .operand .memberExpression [.part .operand, .text dot, .part .name]
  | computedMember {dot : List Symbol} : Optional [.text "?."] dot →
      Rule .operand .memberExpression
        (.part .operand :: dot ++ [.text "[", .part .expression, .text "]"])
  | call {dot args : List Symbol} : Optional [.text "?."] dot → IsArguments args →
      Rule .operand .callExpression (.part .operand :: dot ++ args)
  | calleeNamedMember : Rule .callee .memberExpression [.part .callee, .text ".", .part .name]
  | calleeComputedMember :
      Rule .callee .memberExpression
        [.part .callee, .text "[", .part .expression, .text "]"]
  | construction {args : List Symbol} : args = [] ∨ IsArguments args →
      Rule .construction .newExpression (.text "new" :: .part .callee :: args)
  -- operators
  | unary : Rule .unary .unaryExpression [.token .unaryOperator, .part .unary]
  | prefixUpdate : Rule .unary .updateExpression [.token .updateOperator, .part .unary]
  | postfixUpdate : Rule .unary .updateExpression [.part .operand, .token .updateOperator]
  | binary {least level : Nat} {kind : Node.Kind} : least ≤ level →
      Rule (.binary least) kind [.part (.binary (leftLevel level)),
        .token (.binaryOperator level kind), .part (.binary (rightLevel level))]
  | conditional : Rule .conditional .conditionalExpression [.part (.binary 1), .text "?",
      .part .assignment, .text ":", .part .assignment]
  | assignment : Rule .assignment .assignmentExpression
      [.part .conditional, .token .assignmentOperator, .part .assignment]
  | arrow {params : List Symbol} {body : Part} : IsParameters params →
      body = .block ∨ body = .assignment →
      Rule .assignment .arrowFunctionExpression (params ++ [.text "=>", .part body])
  | sequence {ps : List Symbol} : Tail .assignment ps → ps ≠ [] →
      Rule .expression .sequenceExpression (.part .assignment :: ps)
  -- statements
  | block (n : Nat) : Rule .block .blockStatement
      (.text "\x7b" :: List.replicate n (.part .statement) ++ [.text "\x7d"])
  | functionDeclaration {args : List Symbol} : IsArguments args →
      Rule .statement .functionDeclaration
        (.text "function" :: .part .binding :: args ++ [.part .block])
  | declarator {value : List Symbol} : Optional [.text "=", .part .assignment] value →
      Rule .declarator .variableDeclarator (.part .binding :: value)
  | variableDeclaration {word : String} {ps semi : List Symbol} :
      word ∈ ["var", "let", "const"] → Tail .declarator ps → Optional [.text ";"] semi →
      Rule .statement .variableDeclaration (.text word :: .part .declarator :: ps ++ semi)
  | returnStatement {value semi : List Symbol} : Optional [.part .expression] value →
      Optional [.text ";"] semi →
      Rule .statement .returnStatement (.text "return" :: value ++ semi)
  | ifStatement {alternate : List Symbol} : Optional [.text "else", .part .statement] alternate →
      Rule .statement .ifStatement (.text "if" :: .text "(" :: .part .expression :: .text ")" ::
        .part .statement :: alternate)
  | emptyStatement : Rule .statement .emptyStatement [.text ";"]
  | expressionStatement {semi : List Symbol} : Optional [.text ";"] semi →
      Rule .statement .expressionStatement (.part .expression :: semi)

/-- A node is made of something. -/
theorem Rule.ne_nil {g : Part} {kind : Node.Kind} {body : List Symbol} (h : Rule g kind body) :
    body ≠ [] := by
  cases h with
  | arrow => simp
  | _ => exact List.cons_ne_nil _ _

/-! ## Reading -/

/-- **The tokens from `p` up to `q` are read as the symbols `ps`**, whose parts are the nodes `ids`. -/
inductive Reads (ar : Arena) (code : Code) : List Symbol → Nat → List NodeId → Nat → Prop where
  | nil (p : Nat) : Reads ar code [] p [] p
  | token {t : Terminal} {e : TokenId × Token} {ps : List Symbol} {ids : List NodeId} {p q : Nat} :
      code.at? p = some e → t.accepts e.2 = true → Reads ar code ps (p + 1) ids q →
      Reads ar code (.token t :: ps) p ids q
  | node {g : Part} {kind : Node.Kind} {body ps : List Symbol} {id : NodeId}
      {children ids : List NodeId} {p r q : Nat} :
      Rule g kind body → Reads ar code body p children r →
      ar.get? id = some (Node.spanning code kind children p r) → Reads ar code ps r ids q →
      Reads ar code (.part g :: ps) p (id :: ids) q
  | wrap {g g' : Part} {opener closer : String} {ps : List Symbol} {id : NodeId}
      {ids : List NodeId} {p r q : Nat} :
      g.Wraps opener g' closer → code.is p opener = true → Reads ar code [.part g'] (p + 1) [id] r →
      code.is r closer = true → Reads ar code ps (r + 1) ids q →
      Reads ar code (.part g :: ps) p (id :: ids) q
  | lift {g g' : Part} {ps : List Symbol} {ids : List NodeId} {p q : Nat} :
      g.Covers g' → Reads ar code (.part g' :: ps) p ids q → Reads ar code (.part g :: ps) p ids q

/-- **A node that records how it was read.** -/
def Owned (ar : Arena) (code : Code) (n : Node) : Prop :=
  ∃ g kind body children p q, Rule g kind body ∧ Reads ar code body p children q ∧
    n = Node.spanning code kind children p q

namespace Reads

variable {ar ar' : Arena} {code : Code} {ps ps' : List Symbol} {ids ids' : List NodeId} {p q r : Nat}

theorem append (h : Reads ar code ps p ids r) (h' : Reads ar code ps' r ids' q) :
    Reads ar code (ps ++ ps') p (ids ++ ids') q := by
  -- the front list is taken apart, the bodies of its nodes stay as they are
  induction h with
  | nil => exact h'
  | token hat hacc _ ih => exact .token hat hacc (ih h')
  | node hrule hbody hnode _ _ ih => exact .node hrule hbody hnode (ih h')
  | wrap hwrap hopen hinner hclose _ _ ih => exact .wrap hwrap hopen hinner hclose (ih h')
  | lift hcov _ ih => exact .lift hcov (ih h')

/-- **What has been read stays read** when nodes are added. -/
theorem mono (h : Reads ar code ps p ids q) (hext : ar'.Extends ar) :
    Reads ar' code ps p ids q := by
  induction h with
  | nil p => exact .nil p
  | token hat hacc _ ih => exact .token hat hacc ih
  | node hrule _ hnode _ ihbody ih => exact .node hrule ihbody (hext _ _ hnode) ih
  | wrap hwrap hopen _ hclose _ ihinner ih => exact .wrap hwrap hopen ihinner hclose ih
  | lift hcov _ ih => exact .lift hcov ih

/-- **Progress**: each symbol takes at least one token. -/
theorem add_length_le (h : Reads ar code ps p ids q) : p + ps.length ≤ q := by
  induction h with
  | nil => simp
  | token _ _ _ ih =>
      rw [List.length_cons]
      omega
  | node hrule _ _ _ ihbody ih =>
      have := List.length_pos_iff.mpr hrule.ne_nil
      rw [List.length_cons]
      omega
  | wrap _ _ _ _ _ ihinner ih =>
      simp only [List.length_cons, List.length_nil] at ihinner ⊢
      omega
  | lift _ _ ih => simpa using ih

theorem le (h : Reads ar code ps p ids q) : p ≤ q := by
  have := h.add_length_le
  omega

/-- Nothing is read behind the last token. -/
theorem le_size (h : Reads ar code ps p ids q) (hp : p ≤ code.size) : q ≤ code.size := by
  induction h with
  | nil => exact hp
  | token hat _ _ ih => exact ih (Code.lt_size_of_at? hat)
  | node _ _ _ _ ihbody ih => exact ih (ihbody hp)
  | wrap _ _ _ hclose _ _ ih => exact ih (Code.lt_size_of_is hclose)
  | lift _ _ ih => exact ih hp

end Reads

theorem Owned.mono {ar ar' : Arena} {code : Code} {n : Node} (h : Owned ar code n)
    (hext : ar'.Extends ar) : Owned ar' code n := by
  obtain ⟨g, kind, body, children, p, q, hrule, hbody, rfl⟩ := h
  exact ⟨g, kind, body, children, p, q, hrule, hbody.mono hext, rfl⟩

end Grammar
end ScriptSpacing
