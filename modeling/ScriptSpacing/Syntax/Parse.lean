import ScriptSpacing.Syntax.Grammar.Statement

/-!
# `Syntax.Parse` — the syntax tree of a chain

`Grammar.upTo n` reads any goal of which at most `n` tokens are left. It recurses on `n`, since the
grammar re-enters itself only after reading a token; with no token left every goal stops with what it
wanted first, as its production would. `Tree.ofChain` reads all code tokens of a chain as a program.
-/

namespace ScriptSpacing

/-- The syntax tree of a document: its nodes, and the one that stands for the program. -/
structure Tree where
  arena : Arena
  root  : NodeId
deriving Repr, DecidableEq, Inhabited

namespace Goal

/-- What a goal wants first. -/
def wanted : Goal → Wanted
  | .statement    => .statement
  | .construction => .text "new"
  | _             => .expression

end Goal

namespace Grammar
open ScriptSpacing.Parser

/-- One round of the grammar: each goal by its production, re-entering through `again`. -/
def round (again : Grammar) : Grammar
  | .statement    => statement again
  | .expression   => expression again
  | .assignment   => assignment again
  | .binary least => binary again least
  | .unary        => unary again
  | .construction => construction again

/-- Reads any goal, when at most `n` tokens are left. -/
def upTo : Nat → Grammar
  | 0     => fun goal => unexpected goal.wanted
  | n + 1 => round (upTo n)

/-- Reads statements to the end of the tokens. `body` holds those read so far, last one first. -/
def programBody (again : Grammar) (body : List NodeId) : Nat → Parser (List NodeId)
  | 0 => return body
  | n + 1 => do
    if ← atEnd then return body
    let body := (← again .statement) :: body
    programBody again body n

/-- A whole document; its span is all of the code, and a document without code has none. -/
def program : Parser NodeId := do
  let n ← left
  let body ← programBody (upTo n) [] n
  let (first, last) ← wholeSpan
  node { kind := .program, first, last, children := body.reverse }

end Grammar

namespace Tree

/-- Reads code tokens as a program. -/
def ofCode (code : Code) : Except ParseError Tree :=
  match Grammar.program code {} with
  | .ok (root, s) => .ok ⟨s.arena, root⟩
  | .error e      => .error e

/-- Reads the code tokens of a chain as a program. -/
def ofChain (ch : Chain) : Except ParseError Tree := ofCode (Code.ofChain ch)

end Tree
end ScriptSpacing
