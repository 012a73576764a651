import ScriptSpacing.Spacing.Policy
import ScriptSpacing.Spacing.Preset

/-!
# `Spacing.Directive` — limits on the whitespace beside a token

A directive asks for the whitespace on one side of a token to be what a rule's amount says. Directives
are recorded first and applied afterwards, in order, each to the chain the one before it left.

To apply one, the run of whitespace tokens on that side is collapsed to the amount: taken out for zero,
put in where there is none, rewritten where it differs. A run whose far end is a line break or the end
of the sequence stays as it is, so a limit never joins lines.
-/

namespace ScriptSpacing

/-- A request to limit the whitespace on one side of a token. -/
structure Directive where
  token : TokenId
  side  : Side
  rule  : Rule
deriving Repr, DecidableEq, Inhabited

/-- A chain after some edits, and how many tokens they put in, took out or rewrote. -/
structure Edited where
  chain   : Chain
  changed : Nat
deriving Repr, DecidableEq, Inhabited

namespace Chain

/-- The neighbour of a token on one side. -/
def neighbour (ch : Chain) : Side → TokenId → Option TokenId
  | .before => ch.prev
  | .after  => ch.next

/-- Whether the token of a handle is whitespace. -/
def isWhiteSpace (ch : Chain) (id : TokenId) : Bool := ch.test (·.kind = .whiteSpace) id

/-- Whether the token of a handle is a line break. -/
def isLineBreak (ch : Chain) (id : TokenId) : Bool := ch.test (·.kind = .lineBreak) id

/-- The whitespace tokens from `cursor` on, nearest first, and the token beyond them. -/
def blanksFrom (ch : Chain) (side : Side) : Nat → Option TokenId → List TokenId × Option TokenId
  | n + 1, some id =>
    if ch.isWhiteSpace id then
      let (run, beyond) := blanksFrom ch side n (ch.neighbour side id)
      (id :: run, beyond)
    else ([], some id)
  | _, _ => ([], none)

/-- The run of whitespace tokens on one side of a token, nearest first, and the token beyond it. -/
def blanks (ch : Chain) (side : Side) (id : TokenId) : List TokenId × Option TokenId :=
  ch.blanksFrom side ch.slots.size (ch.neighbour side id)

/-- Places a token directly on one side of a linked one. -/
def insertBeside (ch : Chain) : Side → TokenId → Token → Chain
  | .before => ch.insertBefore
  | .after  => ch.insertAfter

/-- Takes out several tokens. -/
def removeAll (ch : Chain) (ids : List TokenId) : Chain := ids.foldl remove ch

end Chain

namespace Directive

/-- Turns the whitespace tokens `run` on one side of `id` into `n` spaces. -/
def resize (ch : Chain) (side : Side) (id : TokenId) (run : List TokenId) (n : Nat) : Edited :=
  match run with
  | [] => if n = 0 then ⟨ch, 0⟩ else ⟨ch.insertBeside side id (Token.spaces n), 1⟩
  | kept :: rest =>
    let ch := ch.removeAll rest
    if n = 0 then ⟨ch.remove kept, rest.length + 1⟩
    else if ch.test (·.is (Token.spaces n).text) kept then ⟨ch, rest.length⟩
    else ⟨ch.setText kept (Token.spaces n).text, rest.length + 1⟩

/-- Applies a directive whose rule asks for `amount`. -/
def limit (d : Directive) (amount : Amount) (ch : Chain) : Edited :=
  match amount with
  | .preserve => ⟨ch, 0⟩
  | .exact n =>
    if ch.contains d.token then
      match ch.blanks d.side d.token with
      | (run, some beyond) =>
        if ch.isLineBreak beyond then ⟨ch, 0⟩ else resize ch d.side d.token run n.toNat
      | (_, none) => ⟨ch, 0⟩
    else ⟨ch, 0⟩

/-- Applies one more directive to an edited chain. -/
def step (preset : Preset) (e : Edited) (d : Directive) : Edited :=
  let after := d.limit (preset.amount d.side d.rule) e.chain
  ⟨after.chain, e.changed + after.changed⟩

/-- Applies directives in order. -/
def applyAll (ds : List Directive) (preset : Preset) (ch : Chain) : Edited :=
  ds.foldl (step preset) ⟨ch, 0⟩

/-- Where the rule preserves, nothing is changed. -/
theorem limit_preserve (d : Directive) (ch : Chain) : d.limit .preserve ch = ⟨ch, 0⟩ := rfl

/-- **No directive, no change.** -/
@[simp] theorem applyAll_nil (preset : Preset) (ch : Chain) : applyAll [] preset ch = ⟨ch, 0⟩ := rfl

/-- A directive on a token that is not linked does nothing. -/
theorem limit_of_not_contains {d : Directive} {amount : Amount} {ch : Chain}
    (h : ch.contains d.token = false) : d.limit amount ch = ⟨ch, 0⟩ := by
  cases amount with
  | preserve => rfl
  | exact n => simp [limit, h]

end Directive

namespace Pair

/-- The limits just inside a pair: after the opening, then before the closing. -/
def directives (p : Pair) : List Directive :=
  [⟨p.opening, .after, .openingParenthesis⟩, ⟨p.closing, .before, .closingParenthesis⟩]

end Pair
end ScriptSpacing
