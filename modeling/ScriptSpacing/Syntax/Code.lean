import ScriptSpacing.Token.Chain

/-!
# `Syntax.Code` — the code tokens of a chain

The grammar reads the code tokens of a chain by position; whitespace, line breaks and comments are left
out beforehand. Along with the tokens goes, for each `(`, the position of the `)` that closes it. One
pass from left to right finds all of these with a stack of the parentheses still open: a `)` closes the
last one opened, and a `)` without an open partner closes nothing.
-/

namespace ScriptSpacing

/-- What one pass over the tokens knows about their parentheses. -/
structure Pairing where
  /-- the positions of the parentheses still open, last one first -/
  opened  : List Nat := []
  /-- for each position passed, that of the `)` closing a `(` there -/
  closers : Array (Option Nat) := #[]

namespace Pairing

/-- Passes one more token. -/
def step (p : Pairing) (t : Token) : Pairing :=
  let here := p.closers.size
  if t.is "(" then ⟨here :: p.opened, p.closers.push none⟩
  else if t.is ")" then
    match p.opened with
    | i :: rest => ⟨rest, (p.closers.setIfInBounds i (some here)).push none⟩
    | []        => ⟨[], p.closers.push none⟩
  else ⟨p.opened, p.closers.push none⟩

/-- Passes a list of tokens. -/
def ofTokens (ts : List Token) : Pairing := ts.foldl step {}

@[simp] theorem size_closers_step (p : Pairing) (t : Token) :
    (p.step t).closers.size = p.closers.size + 1 := by
  unfold step
  simp only
  split
  · simp
  · split
    · split <;> simp
    · simp

theorem size_closers_foldl (ts : List Token) (p : Pairing) :
    (ts.foldl step p).closers.size = p.closers.size + ts.length := by
  induction ts generalizing p with
  | nil => simp
  | cons t ts ih => simp [ih]; omega

/-- Every position passed has an entry. -/
@[simp] theorem size_closers_ofTokens (ts : List Token) :
    (ofTokens ts).closers.size = ts.length := by
  simp [ofTokens, size_closers_foldl]

end Pairing

/-- The code tokens of a document in source order, with the closing positions of the parentheses. -/
structure Code where
  tokens  : Array (TokenId × Token)
  closers : Array (Option Nat)

namespace Code

/-- The code tokens among the `entries` of a chain. -/
def ofEntries (entries : List (TokenId × Token)) : Code :=
  let code := entries.filter (·.2.isCode)
  ⟨code.toArray, (Pairing.ofTokens (code.map (·.2))).closers⟩

/-- The code tokens of a chain. -/
def ofChain (ch : Chain) : Code := ofEntries ch.entries

/-- The number of code tokens. -/
def size (code : Code) : Nat := code.tokens.size

/-- The token at a position, with its handle. -/
def at? (code : Code) (i : Nat) : Option (TokenId × Token) := code.tokens[i]?

/-- Whether the token at a position has the text `s`. -/
def is (code : Code) (i : Nat) (s : String) : Bool := (code.at? i).any (·.2.is s)

/-- The position of the `)` that closes the `(` at a position. -/
def closer? (code : Code) (i : Nat) : Option Nat := (code.closers[i]?).join

/-- Whether an arrow function begins at a position: a name or a parenthesized list, and `=>` next. -/
def beginsArrow (code : Code) (i : Nat) : Bool :=
  match code.at? i with
  | some (_, t) =>
    if t.kind = .identifier then code.is (i + 1) "=>"
    else t.is "(" && (code.closer? i).any fun close => code.is (close + 1) "=>"
  | none => false

theorem at?_eq_none_iff {code : Code} {i : Nat} : code.at? i = none ↔ code.size ≤ i := by
  simp [at?, size]

theorem lt_size_of_at? {code : Code} {i : Nat} {entry : TokenId × Token}
    (h : code.at? i = some entry) : i < code.size := by
  simp only [at?, Array.getElem?_eq_some_iff] at h
  exact h.1

/-- A text is found only at a position inside the code. -/
theorem lt_size_of_is {code : Code} {i : Nat} {s : String} (h : code.is i s = true) :
    i < code.size := by
  simp only [is, Option.any_eq_true] at h
  obtain ⟨_, hentry, -⟩ := h
  exact lt_size_of_at? hentry

end Code
end ScriptSpacing
