import ScriptSpacing.Syntax.Grammar.Expression

/-!
# `Syntax.Grammar.Statement` — statements

A statement is chosen by the text of its first token alone. Semicolons are optional throughout and
belong to the statement that reads them.
-/

namespace ScriptSpacing
namespace Grammar
open ScriptSpacing.Parser

/-- An expression as a statement; the node's span may end with the semicolon. -/
def expressionStatement (again : Grammar) : Parser NodeId := do
  let (start, _) ← peek .expression
  let inner ← expression again
  let _ ← eat ";"
  node { kind := .expressionStatement, first := some start, last := ← lastRead,
         expression := some inner, children := [inner] }

/-- The value a name is declared with, if any. -/
def initializer (again : Grammar) : Parser (List NodeId) := do
  if ← eat "=" then return [← again .assignment] else return []

/-- A declared name with its value. -/
def declarator (again : Grammar) : Parser NodeId := do
  let (start, _) ← peek .bindingName
  let name ← bindingIdentifier
  let value ← initializer again
  finish .variableDeclarator start (name :: value)

/-- Reads the further declarators of a declaration. `declarators` are those read so far, last one
    first. -/
def declaratorTail (again : Grammar) (declarators : List NodeId) : Nat → Parser (List NodeId)
  | 0 => return declarators
  | n + 1 => do
    if ← eat "," then
      let declarators := (← declarator again) :: declarators
      declaratorTail again declarators n
    else return declarators

/-- A declaration of one or more names, whatever its keyword. -/
def variableDeclaration (again : Grammar) : Parser NodeId := do
  let (start, _) ← peek .statement
  bump
  let head ← declarator again
  let declarators ← declaratorTail again [head] (← left)
  let _ ← eat ";"
  finish .variableDeclaration start declarators.reverse

/-- The value of a return statement, which may be missing. -/
def returnValue (again : Grammar) : Parser (List NodeId) := do
  if ← atEnd then return []
  if ← check ";" then return []
  if ← check "\x7d" then return []
  return [← again .expression]

/-- A return statement. -/
def returnStatement (again : Grammar) : Parser NodeId := do
  let start ← expect "return"
  let value ← returnValue again
  let _ ← eat ";"
  finish .returnStatement start value

/-- The alternative of a conditional statement, if any. -/
def elseBranch (again : Grammar) : Parser (List NodeId) := do
  if ← eat "else" then return [← again .statement] else return []

/-- A conditional statement. -/
def ifStatement (again : Grammar) : Parser NodeId := do
  let start ← expect "if"
  let _ ← expect "("
  let test ← again .expression
  let _ ← expect ")"
  let consequent ← again .statement
  let alternate ← elseBranch again
  finish .ifStatement start (test :: consequent :: alternate)

/-- Any statement. -/
def statement (again : Grammar) : Parser NodeId := do
  let (_, t) ← peek .statement
  match t.text with
  | "var" | "let" | "const" => variableDeclaration again
  | "function" => function again .functionDeclaration
  | "return"   => returnStatement again
  | "if"       => ifStatement again
  | "\x7b"     => block again
  | ";"        => leaf .emptyStatement .statement
  | _          => expressionStatement again

end Grammar
end ScriptSpacing
