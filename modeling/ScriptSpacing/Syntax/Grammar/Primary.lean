import ScriptSpacing.Syntax.Parser

/-!
# `Syntax.Grammar.Primary` — operands: literals, groups, functions, members and calls

The grammar is written with its recursion open: a production that needs another one further down calls
it directly, and one that re-enters the grammar *after reading a token* does so through the argument
`again`, by naming a `Goal`. So every call of `again` has fewer tokens left than the production began
with, which is the measure on which `Syntax.Parse` ties the knot, and a property of a production can be
proved for any `again` that has it.

A loop counts down the tokens left at its start. When the count is used up no token is left, so the loop
does then what it would do at the end of the tokens.
-/

namespace ScriptSpacing

/-- The productions that the grammar re-enters. -/
inductive Goal where
  | statement | expression | assignment
  /-- an operand chain of operators that bind at least this tightly -/
  | binary (least : Nat)
  | unary
  /-- `new` and what follows it -/
  | construction
deriving Repr, DecidableEq, Inhabited

/-- A reader for every goal. -/
abbrev Grammar : Type := Goal → Parser NodeId

namespace Grammar
open ScriptSpacing.Parser

/-! ## Lists -/

/-- Reads the items of a comma-separated list up to, and without, its `close`; a comma may trail. `items`
    are those read so far, last one first. -/
def itemsUntil (close : String) (item : Parser NodeId) (items : List NodeId) :
    Nat → Parser (List NodeId)
  | 0 => do return (← item) :: items
  | n + 1 => do
    if ← check close then return items
    let items := (← item) :: items
    if ← eat "," then itemsUntil close item items n else return items

/-- Reads a comma-separated list with its delimiters. -/
def delimited (opener close : String) (item : Parser NodeId) : Parser (List NodeId) := do
  let _ ← expect opener
  let items ← itemsUntil close item [] (← left)
  let _ ← expect close
  return items.reverse

/-- Reads statements up to a `}` or the end of the tokens. `body` holds those read so far, last one
    first. -/
def statementsUntil (again : Grammar) (body : List NodeId) : Nat → Parser (List NodeId)
  | 0 => return body
  | n + 1 => do
    if ← atEnd then return body
    if ← check "\x7d" then return body
    let body := (← again .statement) :: body
    statementsUntil again body n

/-- A block of statements. -/
def block (again : Grammar) : Parser NodeId := do
  let start ← expect "\x7b"
  let body ← statementsUntil again [] (← left)
  let _ ← expect "\x7d"
  finish .blockStatement start body.reverse

/-- The arguments of a call. -/
def arguments (again : Grammar) : Parser (List NodeId) := delimited "(" ")" (again .assignment)

/-! ## Names and functions -/

/-- A name that is being bound: an identifier, no reserved word. -/
def bindingIdentifier : Parser NodeId := do
  let (_, t) ← peek .identifier
  if t.kind = .identifier then leaf .identifier .identifier else unexpected .identifier

/-- Whether a token may name a property after a dot: reserved words may. -/
def namesProperty (t : Token) : Bool :=
  match t.kind with
  | .identifier | .keyword | .boolean | .null => true
  | _ => false

/-- The name of a property. -/
def propertyName : Parser NodeId := do
  let (_, t) ← peek .propertyName
  if namesProperty t then leaf .identifier .propertyName else unexpected .propertyName

/-- The name of a function, which a declaration must have. -/
def functionName (kind : Node.Kind) : Parser (List NodeId) := do
  if kind = .functionDeclaration || !(← check "(") then return [← bindingIdentifier] else return []

/-- A function with its parameters and body, as a declaration or an expression. -/
def function (again : Grammar) (kind : Node.Kind) : Parser NodeId := do
  let start ← expect "function"
  let name ← functionName kind
  let parameters ← arguments again
  let body ← block again
  finish kind start (name ++ parameters ++ [body])

/-! ## Arrays and objects -/

/-- Reads the elements of an array up to, and without, the `]`; a hole yields no element. -/
def elementsUntil (again : Grammar) (elements : List NodeId) : Nat → Parser (List NodeId)
  | 0 => do return (← again .assignment) :: elements
  | n + 1 => do
    if ← check "]" then return elements
    if ← eat "," then elementsUntil again elements n
    else
      let elements := (← again .assignment) :: elements
      if ← eat "," then elementsUntil again elements n else return elements

/-- An array literal. -/
def array (again : Grammar) : Parser NodeId := do
  let start ← expect "["
  let elements ← elementsUntil again [] (← left)
  let _ ← expect "]"
  finish .arrayExpression start elements.reverse

/-- The key of a property: computed, literal or a name. -/
def propertyKey (again : Grammar) : Parser NodeId := do
  let (_, t) ← peek .property
  if ← eat "[" then
    let key ← again .assignment
    let _ ← expect "]"
    return key
  else if t.kind = .string || t.kind = .numeric then leaf .literal .property
  else propertyName

/-- The value of a property, which a shorthand leaves out. -/
def propertyValue (again : Grammar) : Parser (List NodeId) := do
  if ← eat ":" then return [← again .assignment] else return []

/-- A property of an object literal. -/
def property (again : Grammar) : Parser NodeId := do
  let (start, _) ← peek .property
  let key ← propertyKey again
  let value ← propertyValue again
  finish .property start (key :: value)

/-- An object literal. -/
def object (again : Grammar) : Parser NodeId := do
  let (start, _) ← peek .property
  let properties ← delimited "\x7b" "\x7d" (property again)
  finish .objectExpression start properties

/-! ## Primary expressions -/

/-- An expression in parentheses; the node keeps its own span, without them. -/
def group (again : Grammar) : Parser NodeId := do
  let _ ← expect "("
  let inner ← again .expression
  let _ ← expect ")"
  return inner

/-- A literal, a name, `this`, a function, a group, an array or an object. -/
def primary (again : Grammar) : Parser NodeId := do
  let (_, t) ← peek .expression
  match t.kind with
  | .numeric | .string | .boolean | .null => leaf .literal .expression
  | .identifier => leaf .identifier .expression
  | .keyword =>
    if t.is "this" then leaf .thisExpression .expression
    else if t.is "function" then function again .functionExpression
    else unexpected .expression
  | .punctuator =>
    if t.is "(" then group again
    else if t.is "[" then array again
    else if t.is "\x7b" then object again
    else unexpected .expression
  | _ => unexpected .expression

/-! ## Members and calls -/

/-- A member named in brackets. -/
def computedMember (again : Grammar) (start : TokenId) (object : NodeId) : Parser NodeId := do
  let _ ← expect "["
  let name ← again .expression
  let _ ← expect "]"
  finish .memberExpression start [object, name]

/-- A member named after a dot that has been read. -/
def namedMember (start : TokenId) (object : NodeId) : Parser NodeId := do
  let name ← propertyName
  finish .memberExpression start [object, name]

/-- A call of `callee`. -/
def call (again : Grammar) (start : TokenId) (callee : NodeId) : Parser NodeId := do
  let args ← arguments again
  finishCall .callExpression start callee args

/-- Reads the members after a constructor's name; calls are not among them. -/
def members (again : Grammar) (start : TokenId) (object : NodeId) : Nat → Parser NodeId
  | 0 => return object
  | n + 1 => do
    if ← eat "." then members again start (← namedMember start object) n
    else if ← check "[" then members again start (← computedMember again start object) n
    else return object

/-- A construction; its argument list may be missing. -/
def construction (again : Grammar) : Parser NodeId := do
  let start ← expect "new"
  let (calleeStart, _) ← peek .constructorName
  let head ← if ← check "new" then again .construction else primary again
  let callee ← members again calleeStart head (← left)
  let args ← if ← check "(" then arguments again else pure []
  finishCall .newExpression start callee args

/-- Reads the members and calls after an operand. -/
def suffixes (again : Grammar) (start : TokenId) (operand : NodeId) : Nat → Parser NodeId
  | 0 => return operand
  | n + 1 => do
    if ← check "(" then suffixes again start (← call again start operand) n
    else if ← eat "?." then
      if ← check "(" then suffixes again start (← call again start operand) n
      else if ← check "[" then suffixes again start (← computedMember again start operand) n
      else suffixes again start (← namedMember start operand) n
    else if ← eat "." then suffixes again start (← namedMember start operand) n
    else if ← check "[" then suffixes again start (← computedMember again start operand) n
    else return operand

/-- An operand with its members and calls. -/
def callMember (again : Grammar) : Parser NodeId := do
  let (start, _) ← peek .expression
  let head ← if ← check "new" then construction again else primary again
  suffixes again start head (← left)

end Grammar
end ScriptSpacing
