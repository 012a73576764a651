import ScriptSpacing.Syntax.Descent.Cursor
import ScriptSpacing.Syntax.Grammar.Statement

/-!
# `Syntax.Descent.Productions` — the grammar as it descends

The productions of `Syntax.Grammar`, calling one another without a budget, and loops that go on until they
decide to stop. Nothing here says that they do: `Call.descend` is a least fixed point (`partial_fixpoint`), in
which a call that never returns has no outcome. Operators and classes of tokens are those of the grammar.

Lists of nodes are collected last one first, and turned around where the list is complete.
-/

namespace ScriptSpacing
namespace Descent
open Grammar (binaryOperator? isUnaryOperator isUpdateOperator isAssignmentOperator namesProperty
  rightLevel)

/-- What a comma-separated list in brackets may be a list of. -/
inductive Item where
  | assignment | property
deriving Repr, DecidableEq, Inhabited

/-- What is called for in a descent: a production, or a loop, which goes on from what it has read so far. -/
inductive Call where
  /-- any statement -/
  | statement
  /-- an expression as a statement -/
  | expressionStatement
  /-- a declaration of one or more names -/
  | variableDeclaration
  /-- the declarators from the current token on -/
  | declarators (read : List NodeId)
  /-- a declared name with its value -/
  | declarator
  | returnStatement
  /-- the value of a return statement, which may be missing -/
  | returnValue
  | ifStatement
  /-- a block of statements -/
  | block
  /-- the statements up to a `}` or the end -/
  | statements (read : List NodeId)
  /-- a function with its parameters and body -/
  | function (kind : Node.Kind)
  /-- the name of a function, which a declaration must have -/
  | functionName (kind : Node.Kind)
  /-- one item of a list -/
  | item (i : Item)
  /-- a comma-separated list with its delimiters -/
  | delimited (opener close : String) (i : Item)
  /-- the items up to the `close` -/
  | items (close : String) (i : Item) (read : List NodeId)
  /-- expressions with commas between them -/
  | expression
  /-- the further expressions of a sequence -/
  | sequence (read : List NodeId)
  /-- an arrow function, an assignment or a conditional -/
  | assignment
  /-- an arrow function -/
  | arrow
  /-- the parameters of an arrow function: a parenthesized list, or one name -/
  | arrowParameters
  /-- the body of an arrow function: a block or an expression -/
  | arrowBody
  /-- a test with its two outcomes, or an operand chain -/
  | conditional
  /-- an operand chain of operators of level `least` or above -/
  | binary (least : Nat)
  /-- the operators of level `least` or above after an operand, with their right operands -/
  | operations (least : Nat) (start : TokenId) (operand : NodeId)
  /-- an operator before its operand, or an operand with an update after it -/
  | unary
  /-- an operand with its members and calls -/
  | callMember
  /-- the members and calls after an operand -/
  | suffixes (start : TokenId) (operand : NodeId)
  /-- a construction; its argument list may be missing -/
  | construction
  /-- the members after the name of a constructor -/
  | members (start : TokenId) (operand : NodeId)
  /-- a member named in brackets -/
  | computedMember (start : TokenId) (operand : NodeId)
  /-- a literal, a name, `this`, a function, a group, an array or an object -/
  | primary
  | array
  /-- the elements of an array up to the `]`; a hole yields no element -/
  | elements (read : List NodeId)
  | object
  /-- a property of an object literal -/
  | property
  /-- the key of a property: computed, literal or a name -/
  | propertyKey
  | propertyName
  /-- a name that is being bound -/
  | bindingIdentifier
  /-- the statements up to the end -/
  | program (read : List NodeId)
deriving Repr, DecidableEq, Inhabited

/-- What a call yields: a node, or the nodes of a list. -/
abbrev Call.Result : Call → Type
  | .declarators _ | .returnValue | .statements _ | .functionName _ | .delimited .. | .items ..
  | .sequence _ | .arrowParameters | .elements _ | .program _ => List NodeId
  | _ => NodeId

/-- Reads the current token as a node without children, from `start`. -/
def leaf (kind : Node.Kind) (start : TokenId) : Descent NodeId := do
  let _ ← bump
  finish kind start []

/-- Carries out a call. -/
@[grind =]
def Call.descend : (c : Call) → Descent c.Result
  | .statement => do
    let start ← start .statement
    match (← token start).text with
    | "var" | "let" | "const" => variableDeclaration |>.descend
    | "function" => function .functionDeclaration |>.descend
    | "return"   => returnStatement |>.descend
    | "if"       => ifStatement |>.descend
    | "\x7b"     => block |>.descend
    | ";"        => leaf .emptyStatement start
    | _          => expressionStatement |>.descend
  | .expressionStatement => do
    let start ← start .expression
    let inner ← expression |>.descend
    let _ ← eat ";"
    node { kind := .expressionStatement, first := some start, last := some (← lastConsumed),
           expression := some inner, children := [inner] }
  | .variableDeclaration => do
    let start ← bump
    let declarators ← declarators [] |>.descend
    let _ ← eat ";"
    finish .variableDeclaration start declarators.reverse
  | .declarators read => do
    let read := (← declarator |>.descend) :: read
    if ← eat "," then declarators read |>.descend else return read
  | .declarator => do
    let start ← start .bindingName
    let name ← bindingIdentifier |>.descend
    if ← eat "=" then finish .variableDeclarator start [name, ← assignment |>.descend]
    else finish .variableDeclarator start [name]
  | .returnStatement => do
    let start ← expect "return"
    let value ← returnValue |>.descend
    let _ ← eat ";"
    finish .returnStatement start value
  | .returnValue => do
    if ← isAtEnd then return []
    else if ← check ";" then return []
    else if ← check "\x7d" then return []
    else return [← expression |>.descend]
  | .ifStatement => do
    let start ← expect "if"
    let _ ← expect "("
    let test ← expression |>.descend
    let _ ← expect ")"
    let consequent ← statement |>.descend
    if ← eat "else" then
      finish .ifStatement start [test, consequent, ← statement |>.descend]
    else finish .ifStatement start [test, consequent]
  | .block => do
    let start ← expect "\x7b"
    let body ← statements [] |>.descend
    let _ ← expect "\x7d"
    finish .blockStatement start body.reverse
  | .statements read => do
    if ← isAtEnd then return read
    else if ← check "\x7d" then return read
    else statements ((← statement |>.descend) :: read) |>.descend
  | .function kind => do
    let start ← expect "function"
    let name ← functionName kind |>.descend
    let parameters ← delimited "(" ")" .assignment |>.descend
    let body ← block |>.descend
    finish kind start (name ++ parameters ++ [body])
  | .functionName kind => do
    if kind = .functionDeclaration then return [← bindingIdentifier |>.descend]
    else if ← check "(" then return []
    else return [← bindingIdentifier |>.descend]
  | .item .assignment => assignment |>.descend
  | .item .property   => property |>.descend
  | .delimited opener close i => do
    let _ ← expect opener
    let items ← items close i [] |>.descend
    let _ ← expect close
    return items.reverse
  | .items close i read => do
    if ← check close then return read
    else
      let read := (← item i |>.descend) :: read
      if ← eat "," then items close i read |>.descend else return read
  | .expression => do
    let start ← start .expression
    let head ← assignment |>.descend
    if ← check "," then
      let expressions ← sequence [head] |>.descend
      finish .sequenceExpression start expressions.reverse
    else return head
  | .sequence read => do
    if ← eat "," then sequence ((← assignment |>.descend) :: read) |>.descend
    else return read
  | .assignment => do
    if ← atArrow then arrow |>.descend
    else
      let start ← start .expression
      let target ← conditional |>.descend
      if (← peek? 0).any isAssignmentOperator then
        let _ ← bump
        finish .assignmentExpression start [target, ← assignment |>.descend]
      else return target
  | .arrow => do
    let start ← start (.text "arrow parameters")
    let parameters ← arrowParameters |>.descend
    let _ ← expect "=>"
    let body ← arrowBody |>.descend
    finish .arrowFunctionExpression start (parameters ++ [body])
  | .arrowParameters => do
    if ← check "(" then delimited "(" ")" .assignment |>.descend
    else return [← bindingIdentifier |>.descend]
  | .arrowBody => do
    if ← check "\x7b" then block |>.descend else assignment |>.descend
  | .conditional => do
    let start ← start .expression
    let test ← binary 1 |>.descend
    if ← eat "?" then
      let consequent ← assignment |>.descend
      let _ ← expect ":"
      let alternate ← assignment |>.descend
      finish .conditionalExpression start [test, consequent, alternate]
    else return test
  | .binary least => do
    let start ← start .expression
    let operand ← unary |>.descend
    operations least start operand |>.descend
  | .operations least start operand => do
    match (← peek? 0).bind binaryOperator? with
    | some (level, kind) =>
      if level < least then return operand
      else
        let _ ← bump
        let right ← binary (rightLevel level) |>.descend
        operations least start (← finish kind start [operand, right]) |>.descend
    | none => return operand
  | .unary => do
    let start ← start .expression
    let t ← token start
    if isUnaryOperator t then
      let _ ← bump
      finish .unaryExpression start [← unary |>.descend]
    else if isUpdateOperator t then
      let _ ← bump
      finish .updateExpression start [← unary |>.descend]
    else
      let operand ← callMember |>.descend
      if (← peek? 0).any isUpdateOperator then
        let _ ← bump
        finish .updateExpression start [operand]
      else return operand
  | .callMember => do
    let start ← start .expression
    let head ← if ← check "new" then construction |>.descend else primary |>.descend
    suffixes start head |>.descend
  | .suffixes start operand => do
    if ← check "(" then
      let arguments ← delimited "(" ")" .assignment |>.descend
      suffixes start (← finishCall .callExpression start operand arguments) |>.descend
    else if ← eat "?." then
      if ← check "(" then
        let arguments ← delimited "(" ")" .assignment |>.descend
        suffixes start (← finishCall .callExpression start operand arguments) |>.descend
      else if ← check "[" then
        suffixes start (← computedMember start operand |>.descend) |>.descend
      else
        let name ← propertyName |>.descend
        suffixes start (← finish .memberExpression start [operand, name]) |>.descend
    else if ← eat "." then
      let name ← propertyName |>.descend
      suffixes start (← finish .memberExpression start [operand, name]) |>.descend
    else if ← check "[" then
      suffixes start (← computedMember start operand |>.descend) |>.descend
    else return operand
  | .construction => do
    let start ← expect "new"
    let calleeStart ← Descent.start .constructorName
    let head ← if ← check "new" then construction |>.descend else primary |>.descend
    let callee ← members calleeStart head |>.descend
    let arguments ← if ← check "(" then delimited "(" ")" .assignment |>.descend else pure []
    finishCall .newExpression start callee arguments
  | .members start operand => do
    if ← eat "." then
      let name ← propertyName |>.descend
      members start (← finish .memberExpression start [operand, name]) |>.descend
    else if ← check "[" then
      members start (← computedMember start operand |>.descend) |>.descend
    else return operand
  | .computedMember start operand => do
    let _ ← expect "["
    let name ← expression |>.descend
    let _ ← expect "]"
    finish .memberExpression start [operand, name]
  | .primary => do
    let start ← start .expression
    let t ← token start
    match t.kind with
    | .numeric | .string | .boolean | .null => leaf .literal start
    | .identifier => leaf .identifier start
    | .keyword =>
      if t.is "this" then leaf .thisExpression start
      else if t.is "function" then function .functionExpression |>.descend
      else unexpected .expression
    | .punctuator =>
      if t.is "(" then
        let _ ← bump
        let inner ← expression |>.descend
        let _ ← expect ")"
        return inner
      else if t.is "[" then array |>.descend
      else if t.is "\x7b" then object |>.descend
      else unexpected .expression
    | _ => unexpected .expression
  | .array => do
    let start ← expect "["
    let elements ← elements [] |>.descend
    let _ ← expect "]"
    finish .arrayExpression start elements.reverse
  | .elements read => do
    if ← check "]" then return read
    else if ← eat "," then elements read |>.descend
    else
      let read := (← assignment |>.descend) :: read
      if ← eat "," then elements read |>.descend else return read
  | .object => do
    let start ← start (.text "an object")
    let properties ← delimited "\x7b" "\x7d" .property |>.descend
    finish .objectExpression start properties
  | .property => do
    let start ← start .property
    let key ← propertyKey |>.descend
    if ← eat ":" then finish .property start [key, ← assignment |>.descend]
    else finish .property start [key]
  | .propertyKey => do
    let start ← start .property
    if ← eat "[" then
      let key ← assignment |>.descend
      let _ ← expect "]"
      return key
    else
      match (← token start).kind with
      | .string | .numeric => leaf .literal start
      | _ => propertyName |>.descend
  | .propertyName => do
    let start ← start .propertyName
    if namesProperty (← token start) then leaf .identifier start else unexpected .propertyName
  | .bindingIdentifier => do
    let start ← start .identifier
    if (← token start).kind = .identifier then leaf .identifier start else unexpected .identifier
  | .program read => do
    if ← isAtEnd then return read
    else program ((← statement |>.descend) :: read) |>.descend
partial_fixpoint

/-- A whole document; its span is all of the code. -/
def program : Descent NodeId := do
  let body ← (Call.program []).descend
  let code := (← read).code
  node { kind := .program, first := code[0]?, last := code.back?, children := body.reverse }

/-- Reads the code tokens of a chain as a program. -/
def parse (chain : Chain) : Option (Except Stop NodeId × ParseState) :=
  match Input.ofChain chain with
  | .ok input => program input {}
  | .error s  => some (.error s, {})

end Descent
end ScriptSpacing
