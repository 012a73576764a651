import ScriptSpacing.Syntax.Grammar.Primary

/-!
# `Syntax.Grammar.Expression` — operators, from unary up to sequences

Binary operators are read by precedence climbing over `binaryOperator?`: an operand chain of level
`least` takes operators that bind at least that tightly, and reads each right operand at the next level
up, or at the same level for `**`, the one operator that groups to the right. Every production records
its first token before reading anything, so the parentheses of a leading operand belong to the larger
expression's span.
-/

namespace ScriptSpacing
namespace Grammar
open ScriptSpacing.Parser

/-! ## Operators -/

/-- The level of `**`, which groups to the right. -/
def exponentLevel : Nat := 12

/-- How tightly a binary operator binds, and the kind of node it makes. -/
def binaryOperator? (t : Token) : Option (Nat × Node.Kind) :=
  if t.kind = .punctuator || t.kind = .keyword then
    match t.text with
    | "??" => some (1, .logicalExpression)
    | "||" => some (2, .logicalExpression)
    | "&&" => some (3, .logicalExpression)
    | "|"  => some (4, .binaryExpression)
    | "^"  => some (5, .binaryExpression)
    | "&"  => some (6, .binaryExpression)
    | "==" | "!=" | "===" | "!==" => some (7, .binaryExpression)
    | "<" | ">" | "<=" | ">=" | "instanceof" | "in" => some (8, .binaryExpression)
    | "<<" | ">>" | ">>>" => some (9, .binaryExpression)
    | "+" | "-" => some (10, .binaryExpression)
    | "*" | "/" | "%" => some (11, .binaryExpression)
    | "**" => some (exponentLevel, .binaryExpression)
    | _ => none
  else none

/-- The level at which the right operand of an operator is read. -/
def rightLevel (level : Nat) : Nat := if level = exponentLevel then level else level + 1

/-- Whether a token is an operator before its one operand. -/
def isUnaryOperator (t : Token) : Bool :=
  ["!", "-", "+", "~", "typeof", "void", "delete"].contains t.text &&
    (t.kind = .punctuator || t.kind = .keyword)

/-- Whether a token is an increment or a decrement. -/
def isUpdateOperator (t : Token) : Bool := t.is "++" || t.is "--"

/-- The assignment operators. -/
def assignmentOperators : List String :=
  ["=", "+=", "-=", "*=", "/=", "%=", "**=", "<<=", ">>=", ">>>=", "&=", "|=", "^=", "&&=", "||=",
    "??="]

/-- Whether a token assigns. -/
def isAssignmentOperator (t : Token) : Bool :=
  t.kind = .punctuator && assignmentOperators.contains t.text

/-! ## Productions -/

/-- An operator before its operand, or an operand with an update after it. -/
def unary (again : Grammar) : Parser NodeId := do
  let (start, t) ← peek .expression
  if isUnaryOperator t then
    bump
    let argument ← again .unary
    finish .unaryExpression start [argument]
  else if isUpdateOperator t then
    bump
    let argument ← again .unary
    finish .updateExpression start [argument]
  else
    let operand ← callMember again
    match ← current? with
    | some (_, t) =>
      if isUpdateOperator t then
        bump
        finish .updateExpression start [operand]
      else return operand
    | none => return operand

/-- Reads the operators of level `least` or above after an operand, with their right operands. -/
def operations (again : Grammar) (least : Nat) (start : TokenId) (operand : NodeId) :
    Nat → Parser NodeId
  | 0 => return operand
  | n + 1 => do
    match (← current?).bind fun (_, t) => binaryOperator? t with
    | some (level, kind) =>
      if level < least then return operand
      else
        bump
        let right ← again (.binary (rightLevel level))
        let operation ← finish kind start [operand, right]
        operations again least start operation n
    | none => return operand

/-- An operand chain of operators of level `least` or above. -/
def binary (again : Grammar) (least : Nat) : Parser NodeId := do
  let (start, _) ← peek .expression
  let operand ← unary again
  operations again least start operand (← left)

/-- A test with its two outcomes, or an operand chain. -/
def conditional (again : Grammar) : Parser NodeId := do
  let (start, _) ← peek .expression
  let test ← binary again 1
  if ← eat "?" then
    let consequent ← again .assignment
    let _ ← expect ":"
    let alternate ← again .assignment
    finish .conditionalExpression start [test, consequent, alternate]
  else return test

/-- The parameters of an arrow function: a parenthesized list, or one name. -/
def arrowParameters (again : Grammar) : Parser (List NodeId) := do
  if ← check "(" then arguments again else return [← bindingIdentifier]

/-- The body of an arrow function: a block or an expression. -/
def arrowBody (again : Grammar) : Parser NodeId := do
  if ← check "\x7b" then block again else again .assignment

/-- An arrow function. -/
def arrow (again : Grammar) : Parser NodeId := do
  let (start, _) ← peek .expression
  let parameters ← arrowParameters again
  let _ ← expect "=>"
  let body ← arrowBody again
  finish .arrowFunctionExpression start (parameters ++ [body])

/-- An arrow function, an assignment or a conditional. -/
def assignment (again : Grammar) : Parser NodeId := do
  if ← atArrow then arrow again
  else
    let (start, _) ← peek .expression
    let target ← conditional again
    match ← current? with
    | some (_, t) =>
      if isAssignmentOperator t then
        bump
        let value ← again .assignment
        finish .assignmentExpression start [target, value]
      else return target
    | none => return target

/-- Reads the further expressions of a sequence. `expressions` are those read so far, last one
    first. -/
def sequenceTail (again : Grammar) (expressions : List NodeId) : Nat → Parser (List NodeId)
  | 0 => return expressions
  | n + 1 => do
    if ← eat "," then
      let expressions := (← again .assignment) :: expressions
      sequenceTail again expressions n
    else return expressions

/-- Expressions with commas between them; a single one stands for itself. -/
def expression (again : Grammar) : Parser NodeId := do
  let (start, _) ← peek .expression
  let head ← assignment again
  if ← check "," then
    let expressions ← sequenceTail again [head] (← left)
    finish .sequenceExpression start expressions.reverse
  else return head

end Grammar
end ScriptSpacing
