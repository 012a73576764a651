import ScriptSpacing.Syntax.Arena
import ScriptSpacing.Syntax.Code

/-!
# `Syntax.Parser` — reading code tokens into an arena

A parser reads the code tokens from a position on, allocates nodes and either moves the position
forward or stops with the error at the position it reached; there is no recovery. The primitives here
are the only ones that touch the position and the arena, and each has its lemma: `peek`-like ones move
nothing, `bump` moves by one token, `node` allocates one node.
-/

namespace ScriptSpacing

/-! ## Errors -/

/-- What a parser would have accepted where it stopped. -/
inductive Wanted where
  | statement | expression | identifier | bindingName | propertyName | property | constructorName
  /-- a token of this text -/
  | text (s : String)
deriving Repr, DecidableEq, Inhabited

/-- A text of code tokens outside the grammar. -/
inductive ParseError where
  /-- the token `id`, of text `found`, stands where something else was wanted -/
  | unexpectedToken (id : TokenId) (found : String) (wanted : Wanted)
  /-- the tokens end where something was wanted -/
  | unexpectedEnd (wanted : Wanted)
deriving Repr, DecidableEq, Inhabited

namespace Wanted

/-- The words for what was wanted. -/
def describe : Wanted → String
  | .statement       => "a statement"
  | .expression      => "an expression"
  | .identifier      => "an identifier"
  | .bindingName     => "a binding name"
  | .propertyName    => "a property name"
  | .property        => "a property"
  | .constructorName => "a constructor"
  | .text s          => s

end Wanted

namespace ParseError

/-- The words for an error. -/
def message : ParseError → String
  | .unexpectedToken _ found wanted => s!"unexpected `{found}`, expected {wanted.describe}"
  | .unexpectedEnd wanted => s!"unexpected end of input, expected {wanted.describe}"

/-- The offending token, unless the tokens ended. -/
def token? : ParseError → Option TokenId
  | .unexpectedToken id _ _ => some id
  | .unexpectedEnd _        => none

end ParseError

/-! ## The parser monad -/

/-- What a parser changes: its position among the code tokens and the nodes allocated so far. -/
structure ParseState where
  pos   : Nat := 0
  arena : Arena := {}

/-- A parser: reads `Code`, changes a `ParseState`, yields an `α` or stops. -/
def Parser (α : Type) : Type := Code → ParseState → Except ParseError (α × ParseState)

namespace Parser

/-- Yields `a` and changes nothing. -/
@[always_inline, inline]
protected def pure {α : Type} (a : α) : Parser α := fun _ s => .ok (a, s)

/-- Runs `p`, then what `f` makes of its result. -/
@[always_inline, inline]
protected def bind {α β : Type} (p : Parser α) (f : α → Parser β) : Parser β := fun code s =>
  match p code s with
  | .ok (a, s') => f a code s'
  | .error e    => .error e

instance : Monad Parser where
  pure := Parser.pure
  bind := Parser.bind

@[simp] theorem pure_apply {α : Type} (a : α) (code : Code) (s : ParseState) :
    (pure a : Parser α) code s = .ok (a, s) := rfl

theorem bind_apply {α β : Type} (p : Parser α) (f : α → Parser β) (code : Code) (s : ParseState) :
    (p >>= f) code s = match p code s with
      | .ok (a, s') => f a code s'
      | .error e    => .error e := rfl

/-- **A sequence succeeds when both parts do.** -/
theorem bind_eq_ok {α β : Type} {p : Parser α} {f : α → Parser β} {code : Code} {s : ParseState}
    {r : β × ParseState} :
    (p >>= f) code s = .ok r ↔ ∃ a s', p code s = .ok (a, s') ∧ f a code s' = .ok r := by
  rw [bind_apply]
  cases h : p code s with
  | ok pair =>
      refine ⟨fun hf => ⟨pair.1, pair.2, rfl, hf⟩, ?_⟩
      rintro ⟨a, s', hp, hf⟩
      cases hp
      exact hf
  | error e => simp

/-- **A sequence fails in its first part, or in its second after the first succeeded.** -/
theorem bind_eq_error {α β : Type} {p : Parser α} {f : α → Parser β} {code : Code}
    {s : ParseState} {e : ParseError} :
    (p >>= f) code s = .error e ↔
      p code s = .error e ∨ ∃ a s', p code s = .ok (a, s') ∧ f a code s' = .error e := by
  rw [bind_apply]
  cases h : p code s with
  | ok pair =>
      refine ⟨fun hf => .inr ⟨pair.1, pair.2, rfl, hf⟩, ?_⟩
      rintro (hp | ⟨a, s', hp, hf⟩)
      · cases hp
      · cases hp
        exact hf
  | error e' => simp

/-! ## Looking -/

/-- Whether the current token has the text `s`. -/
def check (s : String) : Parser Bool := fun code st => .ok (code.is st.pos s, st)

/-- Whether every token has been read. -/
def atEnd : Parser Bool := fun code st => .ok (code.size ≤ st.pos, st)

/-- The number of tokens that are left. -/
def left : Parser Nat := fun code st => .ok (code.size - st.pos, st)

/-- The current token and its handle, if there is one. -/
def current? : Parser (Option (TokenId × Token)) := fun code st => .ok (code.at? st.pos, st)

/-- Whether an arrow function begins at the current token. -/
def atArrow : Parser Bool := fun code st => .ok (code.beginsArrow st.pos, st)

/-- The last token that was read. -/
def lastRead : Parser (Option TokenId) := fun code st =>
  .ok (match st.pos with
    | 0     => none
    | i + 1 => (code.at? i).map (·.1), st)

/-- The first and the last of all tokens. -/
def wholeSpan : Parser (Option TokenId × Option TokenId) := fun code st =>
  .ok (((code.at? 0).map (·.1), (code.at? (code.size - 1)).map (·.1)), st)

/-! ## Stopping -/

/-- Stops at the current position. -/
def unexpected {α : Type} (wanted : Wanted) : Parser α := fun code st =>
  match code.at? st.pos with
  | some (id, t) => .error (.unexpectedToken id t.text wanted)
  | none         => .error (.unexpectedEnd wanted)

/-- The current token and its handle; stops at the end of the tokens. -/
def peek (wanted : Wanted) : Parser (TokenId × Token) := fun code st =>
  match code.at? st.pos with
  | some entry => .ok (entry, st)
  | none       => .error (.unexpectedEnd wanted)

/-! ## Moving -/

/-- Moves past the current token. -/
def bump : Parser Unit := fun _ st => .ok ((), { st with pos := st.pos + 1 })

/-- Moves past the current token if its text is `s`, and says whether it did. -/
def eat (s : String) : Parser Bool := do
  if ← check s then
    bump
    return true
  else return false

/-- Moves past a token of text `s`, or stops. -/
def expect (s : String) : Parser TokenId := do
  if ← check s then
    let (id, _) ← peek (.text s)
    bump
    return id
  else unexpected (.text s)

/-! ## Allocating -/

/-- Allocates a node. -/
def node (n : Node) : Parser NodeId := fun _ st =>
  .ok (st.arena.fresh, { st with arena := st.arena.push n })

/-- Allocates a node from `start` to the last token read. -/
def finish (kind : Node.Kind) (start : TokenId) (children : List NodeId) : Parser NodeId := do
  node { kind, first := some start, last := ← lastRead, children }

/-- Allocates a call or construction from `start` to the last token read. -/
def finishCall (kind : Node.Kind) (start : TokenId) (callee : NodeId) (arguments : List NodeId) :
    Parser NodeId := do
  node { kind, first := some start, last := ← lastRead, callee := some callee,
         children := callee :: arguments }

/-- Reads the current token as a node without children. -/
def leaf (kind : Node.Kind) (wanted : Wanted) : Parser NodeId := do
  let (start, _) ← peek wanted
  bump
  finish kind start []

/-! ## What the primitives do -/

@[simp] theorem check_apply (s : String) (code : Code) (st : ParseState) :
    check s code st = .ok (code.is st.pos s, st) := rfl

@[simp] theorem atEnd_apply (code : Code) (st : ParseState) :
    atEnd code st = .ok (decide (code.size ≤ st.pos), st) := rfl

@[simp] theorem left_apply (code : Code) (st : ParseState) :
    left code st = .ok (code.size - st.pos, st) := rfl

@[simp] theorem current?_apply (code : Code) (st : ParseState) :
    current? code st = .ok (code.at? st.pos, st) := rfl

@[simp] theorem atArrow_apply (code : Code) (st : ParseState) :
    atArrow code st = .ok (code.beginsArrow st.pos, st) := rfl

@[simp] theorem bump_apply (code : Code) (st : ParseState) :
    bump code st = .ok ((), { st with pos := st.pos + 1 }) := rfl

@[simp] theorem node_apply (n : Node) (code : Code) (st : ParseState) :
    node n code st = .ok (st.arena.fresh, { st with arena := st.arena.push n }) := rfl

theorem unexpected_ne_ok {α : Type} {wanted : Wanted} {code : Code} {st : ParseState}
    {r : α × ParseState} : unexpected wanted code st ≠ .ok r := by
  unfold unexpected; split <;> simp

theorem peek_eq_ok {wanted : Wanted} {code : Code} {st : ParseState}
    {r : (TokenId × Token) × ParseState} :
    peek wanted code st = .ok r ↔ code.at? st.pos = some r.1 ∧ st = r.2 := by
  unfold peek
  obtain ⟨entry, st'⟩ := r
  split <;> simp_all

/-- `eat` moves past a token exactly when the current one has the text. -/
theorem eat_apply (s : String) (code : Code) (st : ParseState) :
    eat s code st =
      .ok (code.is st.pos s, if code.is st.pos s then { st with pos := st.pos + 1 } else st) := by
  simp only [eat, bind_apply, check_apply]
  cases code.is st.pos s <;> rfl

/-- `expect` succeeds exactly on a token of the text, and moves past it. -/
theorem expect_eq_ok {s : String} {code : Code} {st : ParseState} {r : TokenId × ParseState} :
    expect s code st = .ok r ↔
      code.is st.pos s = true ∧ (code.at? st.pos).map (·.1) = some r.1 ∧
        r.2 = { st with pos := st.pos + 1 } := by
  obtain ⟨id, st'⟩ := r
  rw [expect, bind_apply]
  simp only [check_apply]
  cases h : code.is st.pos s with
  | false => simpa using unexpected_ne_ok
  | true =>
      simp only [↓reduceIte, true_and]
      rw [bind_eq_ok]
      constructor
      · rintro ⟨entry, st'', hpeek, hrest⟩
        rw [peek_eq_ok] at hpeek
        obtain ⟨hat, rfl⟩ := hpeek
        cases hrest
        exact ⟨by rw [hat]; rfl, rfl⟩
      · rintro ⟨hat, rfl⟩
        obtain ⟨entry, hentry, rfl⟩ := Option.map_eq_some_iff.mp hat
        exact ⟨entry, st, peek_eq_ok.mpr ⟨hentry, rfl⟩, rfl⟩

end Parser
end ScriptSpacing
