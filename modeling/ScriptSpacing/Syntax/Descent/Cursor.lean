import ScriptSpacing.Syntax.Parser

/-!
# `Syntax.Descent.Cursor` — a cursor over code tokens that can fail as a machine does

`Syntax.Parser` reads code tokens by position, and nothing it does there can go wrong. A descent does the same
with less to lean on: it holds handles of tokens and looks each token up when it needs it, it subtracts
positions, and it goes on for as long as it goes on. So two outcomes are possible here that a parser does not
have. An index out of range or a difference below zero is a `Stop.panic`, and a descent that goes on forever
has no outcome at all, which is what `none` is for.

A descent that stops keeps its state, so that it can be asked where it stopped. Two things that end a
program are no outcomes here, since they are limits of a machine: the node past the 2³² that an arena with
handles of 32 bits can hold (`Syntax.Arena`), and calls nested more deeply than there is room for them.
-/

namespace ScriptSpacing

/-- Why a descent stops. -/
inductive Stop where
  /-- the code is outside the grammar -/
  | problem (e : ParseError)
  /-- an index out of range, or a difference below zero -/
  | panic
deriving Repr, DecidableEq, Inhabited

namespace Descent

/-- What a descent reads: the tokens, the handles of those that are code, and for each of these, by position,
    where the `)` is that closes a `(` there. -/
structure Input where
  chain   : Chain
  code    : Array TokenId
  closing : Array (Option Nat)

/-- Pairs the parentheses among the code tokens from the position `index` on, `opened` being the positions of
    those still open, last one first. -/
def pairFrom (chain : Chain) : List TokenId → Nat → List Nat → Array (Option Nat) →
    Except Stop (Array (Option Nat))
  | [], _, _, closing => .ok closing
  | id :: ids, index, opened, closing =>
    match chain.get? id with
    | none => .error .panic
    | some t =>
      if t.is "(" then pairFrom chain ids (index + 1) (index :: opened) closing
      else if t.is ")" then
        match opened with
        | [] => pairFrom chain ids (index + 1) [] closing
        | opening :: opened =>
          if opening < closing.size then
            pairFrom chain ids (index + 1) opened (closing.setIfInBounds opening (some index))
          else .error .panic
      else pairFrom chain ids (index + 1) opened closing

/-- What a descent reads of a chain. -/
def Input.ofChain (chain : Chain) : Except Stop Input :=
  let code := (chain.entries.filter (·.2.isCode)).map (·.1)
  (pairFrom chain code 0 [] (Array.replicate code.length none)).map (⟨chain, code.toArray, ·⟩)

end Descent

/-- A descent: reads an `Input`, changes a `ParseState`, and yields an `α`, stops or never ends. -/
abbrev Descent (α : Type) : Type := ReaderT Descent.Input (ExceptT Stop (StateT ParseState Option)) α

namespace Descent

/-! ## Looking -/

/-- Stops at an index that is out of range. -/
def getOrPanic {α : Type} : Option α → Descent α
  | some a => return a
  | none   => throw .panic

/-- The token of a handle. -/
def token (id : TokenId) : Descent Token := do getOrPanic ((← read).chain.get? id)

/-- Whether every token has been read. -/
def isAtEnd : Descent Bool := return (← read).code.size ≤ (← get).pos

/-- The handle `offset` positions ahead. -/
def handle? (offset : Nat) : Descent (Option TokenId) := return (← read).code[(← get).pos + offset]?

/-- The token `offset` positions ahead. -/
def peek? (offset : Nat) : Descent (Option Token) := do
  match ← handle? offset with
  | some id => return some (← token id)
  | none    => return none

/-- Whether the token `offset` positions ahead has the text `s`. -/
def peekIs (offset : Nat) (s : String) : Descent Bool := return (← peek? offset).any (·.is s)

/-- Whether the current token has the text `s`. -/
def check (s : String) : Descent Bool := peekIs 0 s

/-- The handle of the current token, at which a node begins. -/
def start (wanted : Wanted) : Descent TokenId := do
  match ← handle? 0 with
  | some id => return id
  | none    => throw (.problem (.unexpectedEnd wanted))

/-- The handle of the last token that was read. -/
def lastConsumed : Descent TokenId := do
  match (← get).pos with
  | 0     => throw .panic
  | i + 1 => getOrPanic (← read).code[i]?

/-- Whether an arrow function begins at the current token. -/
def atArrow : Descent Bool := do
  match ← peek? 0 with
  | some t =>
    if t.kind = .identifier then peekIs 1 "=>"
    else if t.is "(" then
      let pos := (← get).pos
      match ((← read).closing[pos]?).join with
      | some close => if close < pos then throw .panic else peekIs (close - pos + 1) "=>"
      | none       => return false
    else return false
  | none => return false

/-! ## Stopping and moving -/

/-- Stops at the current token. -/
def unexpected {α : Type} (wanted : Wanted) : Descent α := do
  match ← handle? 0 with
  | some id => throw (.problem (.unexpectedToken id (← token id).text wanted))
  | none    => throw (.problem (.unexpectedEnd wanted))

/-- Moves past the current token. -/
def bump : Descent TokenId := do
  let id ← start (.text "a token")
  modify fun st => { st with pos := st.pos + 1 }
  return id

/-- Moves past the current token if its text is `s`, and says whether it did. -/
def eat (s : String) : Descent Bool := do
  if ← check s then
    modify fun st => { st with pos := st.pos + 1 }
    return true
  else return false

/-- Moves past a token of text `s`, or stops. -/
def expect (s : String) : Descent TokenId := do
  if ← check s then bump else unexpected (.text s)

/-! ## Allocating -/

/-- Allocates a node. -/
def node (n : Node) : Descent NodeId := do
  let id := (← get).arena.fresh
  modify fun st => { st with arena := st.arena.push n }
  return id

/-- Allocates a node from `start` to the last token read. -/
def finish (kind : Node.Kind) (start : TokenId) (children : List NodeId) : Descent NodeId := do
  node { kind, first := some start, last := some (← lastConsumed), children }

/-- Allocates a call or construction from `start` to the last token read. -/
def finishCall (kind : Node.Kind) (start : TokenId) (callee : NodeId) (arguments : List NodeId) :
    Descent NodeId := do
  node { kind, first := some start, last := some (← lastConsumed), callee := some callee,
         children := callee :: arguments }

end Descent
end ScriptSpacing
