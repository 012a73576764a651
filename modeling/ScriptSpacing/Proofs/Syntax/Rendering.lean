import ScriptSpacing.Proofs.Syntax.Derivation
import ScriptSpacing.Proofs.Token.Sorted

/-!
# `Proofs.Syntax.Rendering` — expressions written with every parenthesis

An `Expr` is an expression as a tree, with the tokens that a writer chooses: names, literals and operators,
each a token of its class whose kind fits its text (`Word`). `Expr.render` writes it with parentheses around
the whole and around every expression in it, so that no level and no grouping matters. `Expr.outline` is the
shape that a syntax tree of it has: the kinds of its nodes, their children in order, and the tokens at its
leaves.
-/

namespace ScriptSpacing
namespace Grammar

/-- **A token of a class**, of the kind that its text has. -/
abbrev Word (t : Terminal) : Type := {tok : Token // t.accepts tok = true ∧ tok.Sorted}

/-- Whether a terminal is a name or a literal. -/
def Terminal.isLeaf : Terminal → Bool
  | .identifier | .literal | .literalKey | .name => true
  | _ => false

/-- Whether a terminal is a parenthesis. -/
def Terminal.isParenthesis : Terminal → Bool
  | .text s => s == "(" || s == ")"
  | _ => false

theorem kind_ne_punctuator_of_accepts {t : Terminal} {tok : Token} (ht : t.isLeaf = true)
    (hacc : t.accepts tok = true) : tok.kind ≠ .punctuator := by
  intro hkind
  cases t with
  | identifier | literal | literalKey | name =>
      simp [Terminal.accepts, namesProperty, hkind] at hacc
  | _ => cases ht

/-- No name or literal reads like a punctuator. -/
theorem Word.ne_punctuator {t : Terminal} {s : String} (word : Word t) (ht : t.isLeaf = true)
    (hs : s ∈ Token.punctuators) : word.1.text ≠ s := by
  intro htext
  exact kind_ne_punctuator_of_accepts ht word.2.1 (word.2.2.punctuator (htext ▸ hs))

/-- No name or literal reads like a reserved word. -/
theorem Word.ne_keyword {t : Terminal} {s : String} (word : Word t)
    (ht : t = .identifier ∨ t = .literal) (hs : s ∈ Token.keywords) : word.1.text ≠ s := by
  intro htext
  have hkind := word.2.2.keyword (htext ▸ hs)
  have hacc := word.2.1
  rcases ht with rfl | rfl <;> simp [Terminal.accepts, hkind] at hacc

/-- No word reads like a parenthesis. -/
theorem Word.text_ne {t : Terminal} {s : String} (word : Word t) (hs : s = "(" ∨ s = ")")
    (ht : t.isParenthesis = false) : word.1.text ≠ s := by
  have hmem : s ∈ Token.punctuators := by
    rcases hs with rfl | rfl <;> decide
  by_cases hleaf : t.isLeaf = true
  · exact word.ne_punctuator hleaf hmem
  intro htext
  have hacc := word.2.1
  cases t with
  | text s' =>
      obtain rfl : s' = s := (Token.is_eq_true.mp hacc).symm.trans htext
      rcases hs with rfl | rfl <;> cases ht
  | unaryOperator =>
      rcases hs with rfl | rfl <;> simp [Terminal.accepts, isUnaryOperator, htext] at hacc
  | updateOperator =>
      rcases hs with rfl | rfl <;> simp [Terminal.accepts, isUpdateOperator, Token.is, htext] at hacc
  | assignmentOperator =>
      rcases hs with rfl | rfl <;>
        simp [Terminal.accepts, isAssignmentOperator, assignmentOperators, htext] at hacc
  | binaryOperator level kind =>
      rcases hs with rfl | rfl <;> simp [Terminal.accepts, binaryOperator?, htext] at hacc
  | _ => exact hleaf rfl

mutual

/-- **An expression**, with the tokens that it is written with. -/
inductive Expr where
  | name (word : Word .identifier)
  | literal (word : Word .literal)
  | this (word : Word (.text "this"))
  | unary (op : Word .unaryOperator) (e : Expr)
  | prefixUpdate (op : Word .updateOperator) (e : Expr)
  | postfixUpdate (e : Expr) (op : Word .updateOperator)
  /-- an operation, whose kind and level are those of its operator -/
  | binary {level : Nat} {kind : Node.Kind} (left : Expr) (op : Word (.binaryOperator level kind))
      (right : Expr)
  | assignment (target : Expr) (op : Word .assignmentOperator) (value : Expr)
  | conditional (test consequent alternate : Expr)
  /-- two expressions or more -/
  | sequence (head next : Expr) (rest : List Expr)
  | call (callee : Expr) (arguments : List Expr)
  | construction (callee : Expr) (arguments : List Expr)
  /-- a construction that is written without a list of arguments -/
  | bareConstruction (callee : Expr)
  | namedMember (object : Expr) (word : Word .name)
  | computedMember (object name : Expr)
  | array (elements : List Expr)
  | object (members : List Member)
  | arrow (parameters : List Expr) (body : Expr)

/-- A key of an object with its value. -/
inductive Member where
  | named (key : Word .name) (value : Expr)
  | literal (key : Word .literalKey) (value : Expr)
  | computed (key value : Expr)

end

/-! ## Writing -/

/-- The tokens in parentheses. -/
def grouped (ts : List Token) : List Token := .punctuator "(" :: ts ++ [.punctuator ")"]

/-- The lists of tokens with commas between them. -/
def commas : List (List Token) → List Token
  | [] => []
  | [ts] => ts
  | ts :: us :: tss => ts ++ .punctuator "," :: commas (us :: tss)

/-- The word that a construction begins with. -/
def newToken : Token := ⟨.keyword, "new"⟩

mutual

/-- The tokens of an expression, without the parentheses around the whole. -/
def Expr.inner : Expr → List Token
  | .name word => [word.1]
  | .literal word => [word.1]
  | .this word => [word.1]
  | .unary op e => op.1 :: grouped e.inner
  | .prefixUpdate op e => op.1 :: grouped e.inner
  | .postfixUpdate e op => grouped e.inner ++ [op.1]
  | .binary left op right => grouped left.inner ++ op.1 :: grouped right.inner
  | .assignment target op value => grouped target.inner ++ op.1 :: grouped value.inner
  | .conditional test consequent alternate =>
      grouped test.inner ++ .punctuator "?" :: (grouped consequent.inner ++
        .punctuator ":" :: grouped alternate.inner)
  | .sequence head next rest => commas (grouped head.inner :: grouped next.inner :: renders rest)
  | .call callee arguments => grouped callee.inner ++ grouped (commas (renders arguments))
  | .construction callee arguments =>
      newToken :: (grouped callee.inner ++ grouped (commas (renders arguments)))
  | .bareConstruction callee => newToken :: grouped callee.inner
  | .namedMember object word => grouped object.inner ++ [.punctuator ".", word.1]
  | .computedMember object name =>
      grouped object.inner ++ .punctuator "[" :: (grouped name.inner ++ [.punctuator "]"])
  | .array elements => .punctuator "[" :: (commas (renders elements) ++ [.punctuator "]"])
  | .object members => .punctuator "\x7b" :: (commas (memberRenders members) ++ [.punctuator "\x7d"])
  | .arrow parameters body =>
      grouped (commas (renders parameters)) ++ .punctuator "=>" :: grouped body.inner

/-- The expressions of a list, each in parentheses. -/
def renders : List Expr → List (List Token)
  | [] => []
  | e :: es => grouped e.inner :: renders es

/-- The tokens of a member: a key that is computed stands in brackets. -/
def Member.render : Member → List Token
  | .named key value => key.1 :: .punctuator ":" :: grouped value.inner
  | .literal key value => key.1 :: .punctuator ":" :: grouped value.inner
  | .computed key value =>
      .punctuator "[" :: (grouped key.inner ++
        .punctuator "]" :: .punctuator ":" :: grouped value.inner)

/-- The members of a list. -/
def memberRenders : List Member → List (List Token)
  | [] => []
  | m :: ms => m.render :: memberRenders ms

end

/-- **The tokens of an expression**, in parentheses as a whole and in every part. -/
def Expr.render (e : Expr) : List Token := grouped e.inner

theorem renders_eq_map (es : List Expr) : renders es = es.map Expr.render := by
  induction es with
  | nil => rfl
  | cons e es ih => rw [renders, ih, List.map_cons, Expr.render]

theorem memberRenders_eq_map (ms : List Member) : memberRenders ms = ms.map Member.render := by
  induction ms with
  | nil => rfl
  | cons m ms ih => rw [memberRenders, ih, List.map_cons]

/-! ## Shapes -/

/-- **The shape of a syntax tree**: a leaf of a kind with its token, or a node of a kind with its parts. -/
inductive Outline where
  | leaf (kind : Node.Kind) (t : Token)
  | branch (kind : Node.Kind) (parts : List Outline)

mutual

/-- **The shape of an expression.** -/
def Expr.outline : Expr → Outline
  | .name word => .leaf .identifier word.1
  | .literal word => .leaf .literal word.1
  | .this word => .leaf .thisExpression word.1
  | .unary _ e => .branch .unaryExpression [e.outline]
  | .prefixUpdate _ e => .branch .updateExpression [e.outline]
  | .postfixUpdate e _ => .branch .updateExpression [e.outline]
  | @Expr.binary _ kind left _ right => .branch kind [left.outline, right.outline]
  | .assignment target _ value => .branch .assignmentExpression [target.outline, value.outline]
  | .conditional test consequent alternate =>
      .branch .conditionalExpression [test.outline, consequent.outline, alternate.outline]
  | .sequence head next rest =>
      .branch .sequenceExpression (head.outline :: next.outline :: outlines rest)
  | .call callee arguments => .branch .callExpression (callee.outline :: outlines arguments)
  | .construction callee arguments => .branch .newExpression (callee.outline :: outlines arguments)
  | .bareConstruction callee => .branch .newExpression [callee.outline]
  | .namedMember object word =>
      .branch .memberExpression [object.outline, .leaf .identifier word.1]
  | .computedMember object name => .branch .memberExpression [object.outline, name.outline]
  | .array elements => .branch .arrayExpression (outlines elements)
  | .object members => .branch .objectExpression (memberOutlines members)
  | .arrow parameters body =>
      .branch .arrowFunctionExpression (outlines parameters ++ [body.outline])

/-- The shapes of a list of expressions. -/
def outlines : List Expr → List Outline
  | [] => []
  | e :: es => e.outline :: outlines es

/-- The shape of a member. -/
def Member.outline : Member → Outline
  | .named key value => .branch .property [.leaf .identifier key.1, value.outline]
  | .literal key value => .branch .property [.leaf .literal key.1, value.outline]
  | .computed key value => .branch .property [key.outline, value.outline]

/-- The shapes of a list of members. -/
def memberOutlines : List Member → List Outline
  | [] => []
  | m :: ms => m.outline :: memberOutlines ms

end

theorem outlines_eq_map (es : List Expr) : outlines es = es.map Expr.outline := by
  induction es with
  | nil => rfl
  | cons e es ih => rw [outlines, ih, List.map_cons]

theorem memberOutlines_eq_map (ms : List Member) : memberOutlines ms = ms.map Member.outline := by
  induction ms with
  | nil => rfl
  | cons m ms ih => rw [memberOutlines, ih, List.map_cons]

/-- **A node of an arena has a shape** when it has its kind and its children have the shapes of its parts, in
    order. A leaf has the token at its position; a call or construction is linked to its first child, and no
    other expression to any (`Node.spanning`). -/
inductive Depicts (ar : Arena) (code : Code) : List NodeId → List Outline → Prop where
  | nil : Depicts ar code [] []
  | leaf {kind : Node.Kind} {e : TokenId × Token} {id : NodeId} {ids : List NodeId}
      {outs : List Outline} {p : Nat} (here : code.at? p = some e)
      (node : ar.get? id = some (Node.spanning code kind [] p (p + 1)))
      (rest : Depicts ar code ids outs) :
      Depicts ar code (id :: ids) (.leaf kind e.2 :: outs)
  | branch {kind : Node.Kind} {id : NodeId} {children ids : List NodeId}
      {parts outs : List Outline} {p q : Nat}
      (node : ar.get? id = some (Node.spanning code kind children p q))
      (below : Depicts ar code children parts) (rest : Depicts ar code ids outs) :
      Depicts ar code (id :: ids) (.branch kind parts :: outs)

namespace Depicts

variable {ar ar' : Arena} {code : Code} {ids ids' : List NodeId} {outs outs' : List Outline}

/-- **Nodes keep their shapes** when nodes are added. -/
theorem mono (h : Depicts ar code ids outs) (hext : ar'.Extends ar) : Depicts ar' code ids outs := by
  induction h with
  | nil => exact .nil
  | leaf hat hnode _ ih => exact .leaf hat (hext _ _ hnode) ih
  | branch hnode _ _ ihbelow ih => exact .branch (hext _ _ hnode) ihbelow ih

theorem append (h : Depicts ar code ids outs) (h' : Depicts ar code ids' outs') :
    Depicts ar code (ids ++ ids') (outs ++ outs') := by
  -- along the front list; the children of its nodes stay as they are
  induction h with
  | nil => exact h'
  | leaf hat hnode _ ih => exact .leaf hat hnode ih
  | branch hnode hbelow _ _ ih => exact .branch hnode hbelow ih

end Depicts

end Grammar
end ScriptSpacing
