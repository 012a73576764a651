import ScriptSpacing.Decimal.Binary64

/-!
# `Decimal.Shortest` — the fewest digits that read back

The decimals that round to a number form an interval around it, whose ends belong to it when the
mantissa is even. The shortest decimal is found by trying 1, 2, … 17 digits: on each grid only the two
neighbours of the number can lie in the interval, and of two that do, the nearer is taken.

The written form keeps the point visible: positional up to sixteen places before it and down to five
after it, and otherwise one digit before the point and a power of ten, with its sign, after an `e`.
-/

namespace ScriptSpacing

/-- The decimal `digits · 10 ^ exponent`. -/
structure Decimal where
  digits   : Nat
  exponent : Int
deriving Repr, DecidableEq, Inhabited

namespace Decimal

/-! ## The interval of a number -/

/-- The decimals that read back as a number: `low` to `high` over `denominator`, and `value` itself. -/
structure Interval where
  low         : Nat
  value       : Nat
  high        : Nat
  denominator : Nat
  closed      : Bool
deriving Repr, DecidableEq

/-- The interval of a number other than zero. Its lower half is narrower where the exponent changes. -/
def Interval.around (x : Binary64) : Interval :=
  let unit := Nat.pow 2 x.exponent.toNat
  let narrow := x.mantissa = Nat.pow 2 52 && Binary64.leastExponent < x.exponent
  { low         := (4 * x.mantissa - if narrow then 1 else 2) * unit
    value       := 4 * x.mantissa * unit
    high        := (4 * x.mantissa + 2) * unit
    denominator := 4 * x.denominator
    closed      := x.mantissa % 2 = 0 }

/-- Whether `c · 10 ^ e` lies in the interval. -/
def Interval.contains (i : Interval) (c : Nat) (e : Int) : Bool :=
  let lhs := c * Nat.pow 10 e.toNat * i.denominator
  let unit := Nat.pow 10 (-e).toNat
  if i.closed then i.low * unit ≤ lhs && lhs ≤ i.high * unit
  else i.low * unit < lhs && lhs < i.high * unit

/-- The neighbours of the value on the grid of multiples of `10 ^ e`, and whether the upper one is
    nearer, a tie going to the even neighbour. -/
def Interval.neighbours (i : Interval) (e : Int) : Nat × Nat × Bool :=
  let n := i.value * Nat.pow 10 (-e).toNat
  let d := i.denominator * Nat.pow 10 e.toNat
  (n / d, n / d + 1, d < 2 * (n % d) || (2 * (n % d) = d && n / d % 2 = 1))

/-- The decimal on the grid of multiples of `10 ^ e` that reads back, if one does. -/
def Interval.onGrid? (i : Interval) (e : Int) : Option Decimal :=
  let (lower, upper, nearer) := i.neighbours e
  match i.contains lower e, i.contains upper e with
  | true, true   => some ⟨if nearer then upper else lower, e⟩
  | true, false  => some ⟨lower, e⟩
  | false, true  => some ⟨upper, e⟩
  | false, false => none

/-! ## The shortest decimal -/

/-- The number of decimal digits of `n`. -/
def digitCount (n : Nat) : Nat := (Nat.toDigits 10 n).length

/-- The number of places before the point of `n / d`: the `k` with `10 ^ (k - 1) ≤ n / d < 10 ^ k`. -/
def magnitude (n d : Nat) : Int :=
  if d ≤ n then digitCount (n / d)
  else
    let k : Int := digitCount (d / n)
    if d ≤ n * Nat.pow 10 (k - 1).toNat then 2 - k else 1 - k

/-- Writes a decimal without zeros at the end of its digits. -/
def trim (c : Nat) (e : Int) : Nat → Decimal
  | 0 => ⟨c, e⟩
  | n + 1 => if c % 10 = 0 && c ≠ 0 then trim (c / 10) (e + 1) n else ⟨c, e⟩

/-- The decimal of the fewest digits that reads back as a number. -/
def shortest (x : Binary64) : Decimal :=
  if x.isZero then ⟨0, 0⟩
  else
    let i := Interval.around x
    let k := magnitude i.value i.denominator
    match (List.range 17).findSome? fun (n : Nat) => i.onGrid? (k - (n + 1 : Nat)) with
    | some c => trim c.digits c.exponent 17
    | none   => ⟨0, 0⟩

/-! ## The written form -/

/-- `n` zeros. -/
def zeros (n : Nat) : String := String.ofList (List.replicate n '0')

/-- A decimal in its written form. -/
def text (x : Decimal) : String :=
  let ds := Nat.toDigits 10 x.digits
  let count : Int := ds.length
  let point := count + x.exponent
  let digits := String.ofList ds
  if x.digits = 0 then "0.0"
  else if 0 ≤ x.exponent ∧ point ≤ 16 then digits ++ zeros x.exponent.toNat ++ ".0"
  else if 0 < point ∧ point ≤ 16 then
    String.ofList (ds.take point.toNat) ++ "." ++ String.ofList (ds.drop point.toNat)
  else if -5 < point ∧ point ≤ 0 then "0." ++ zeros (-point).toNat ++ digits
  else
    let fraction := if ds.length = 1 then "" else "." ++ String.ofList (ds.drop 1)
    let sign := if 0 < point then "+" else ""
    String.ofList (ds.take 1) ++ fraction ++ "e" ++ sign ++ toString (point - 1)

end Decimal
end ScriptSpacing
