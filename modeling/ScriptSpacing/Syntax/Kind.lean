/-!
# `Syntax.Kind` — the kinds of syntax nodes

The kinds are the ESTree type names of the subset, two placeholders that the grammar never produces
but the spacing policy knows, and one synthetic kind that forces spacing on an arbitrary span. The set
is closed, so every property a rule keys off is a function on it.
-/

namespace ScriptSpacing

/-- The kind of a syntax node. -/
inductive Node.Kind where
  | program | expressionStatement | variableDeclaration | variableDeclarator | functionDeclaration
  | returnStatement | ifStatement | blockStatement | emptyStatement
  | identifier | literal | thisExpression
  | arrayExpression | objectExpression | property | functionExpression | arrowFunctionExpression
  | unaryExpression | updateExpression | binaryExpression | logicalExpression
  | assignmentExpression | conditionalExpression | callExpression | newExpression
  | memberExpression | sequenceExpression
  | jsxEmptyExpression | jsxExpressionContainer
  | special
deriving Repr, DecidableEq, Inhabited

namespace Node
namespace Kind

/-- Every kind: statements, leaves, compound expressions, placeholders. -/
def all : List Kind :=
  [.program, .expressionStatement, .variableDeclaration, .variableDeclarator, .functionDeclaration,
    .returnStatement, .ifStatement, .blockStatement, .emptyStatement,
    .identifier, .literal, .thisExpression,
    .arrayExpression, .objectExpression, .property, .functionExpression, .arrowFunctionExpression,
    .unaryExpression, .updateExpression, .binaryExpression, .logicalExpression,
    .assignmentExpression, .conditionalExpression, .callExpression, .newExpression,
    .memberExpression, .sequenceExpression,
    .jsxEmptyExpression, .jsxExpressionContainer, .special]

/-- The printed name of a kind. -/
def name : Kind → String
  | .program                 => "Program"
  | .expressionStatement     => "ExpressionStatement"
  | .variableDeclaration     => "VariableDeclaration"
  | .variableDeclarator      => "VariableDeclarator"
  | .functionDeclaration     => "FunctionDeclaration"
  | .returnStatement         => "ReturnStatement"
  | .ifStatement             => "IfStatement"
  | .blockStatement          => "BlockStatement"
  | .emptyStatement          => "EmptyStatement"
  | .identifier              => "Identifier"
  | .literal                 => "Literal"
  | .thisExpression          => "ThisExpression"
  | .arrayExpression         => "ArrayExpression"
  | .objectExpression        => "ObjectExpression"
  | .property                => "Property"
  | .functionExpression      => "FunctionExpression"
  | .arrowFunctionExpression => "ArrowFunctionExpression"
  | .unaryExpression         => "UnaryExpression"
  | .updateExpression        => "UpdateExpression"
  | .binaryExpression        => "BinaryExpression"
  | .logicalExpression       => "LogicalExpression"
  | .assignmentExpression    => "AssignmentExpression"
  | .conditionalExpression   => "ConditionalExpression"
  | .callExpression          => "CallExpression"
  | .newExpression           => "NewExpression"
  | .memberExpression        => "MemberExpression"
  | .sequenceExpression      => "SequenceExpression"
  | .jsxEmptyExpression      => "JSXEmptyExpression"
  | .jsxExpressionContainer  => "JSXExpressionContainer"
  | .special                 => "Special"

/-- The kind of a given name. -/
def ofName? (s : String) : Option Kind := all.find? (·.name == s)

/-- The expression kinds other than the leaves `identifier` and `literal`, and the statement that
    wraps an expression. -/
def isExpressionLike : Kind → Bool
  | .expressionStatement | .thisExpression | .arrayExpression | .objectExpression
  | .functionExpression | .arrowFunctionExpression | .unaryExpression | .updateExpression
  | .binaryExpression | .logicalExpression | .assignmentExpression | .conditionalExpression
  | .callExpression | .newExpression | .memberExpression | .sequenceExpression
  | .jsxEmptyExpression | .jsxExpressionContainer => true
  | _ => false

/-- The kinds whose first token is the first token of an operand, so that parentheses around the node
    lie strictly before it. -/
def isBinaryLike : Kind → Bool
  | .binaryExpression | .logicalExpression => true
  | _ => false

theorem mem_all (k : Kind) : k ∈ all := by cases k <;> decide

/-- **Names are read back**: `ofName?` inverts `name`. -/
theorem ofName?_name (k : Kind) : ofName? k.name = some k := by cases k <;> decide

/-- Binary-like kinds are expressions. -/
theorem isExpressionLike_of_isBinaryLike {k : Kind} (h : k.isBinaryLike = true) :
    k.isExpressionLike = true := by
  cases k <;> simp_all [isBinaryLike, isExpressionLike]

end Kind
end Node
end ScriptSpacing
