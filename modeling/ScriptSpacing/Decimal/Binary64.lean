/-!
# `Decimal.Binary64` — rounding to the binary format of 64 bits

A finite number of the format, its sign apart, is `mantissa · 2 ^ exponent` with a mantissa below
`2 ^ 53` and an exponent of at least `-1074`. Arithmetic is exact on quotients of natural numbers and
rounds once, to the nearest number of the format; of two that are equally near it takes the one with the
even mantissa. A result of `2 ^ 1024` or more has no finite form.
-/

namespace ScriptSpacing

/-- A finite number of the format without its sign: `mantissa · 2 ^ exponent`. -/
structure Binary64 where
  mantissa : Nat
  exponent : Int
deriving Repr, DecidableEq, Inhabited

namespace Binary64

/-- The least exponent of the format. -/
def leastExponent : Int := -1074

/-- The power of two at which finite numbers end. -/
def overflowExponent : Int := 1024

/-- Zero. -/
def zero : Binary64 := ⟨0, leastExponent⟩

/-- Whether a number is zero. -/
def isZero (x : Binary64) : Bool := x.mantissa = 0

/-- The numerator of a number as a quotient. -/
def numerator (x : Binary64) : Nat := x.mantissa * Nat.pow 2 x.exponent.toNat

/-- The denominator of a number as a quotient. -/
def denominator (x : Binary64) : Nat := Nat.pow 2 (-x.exponent).toNat

/-! ## Rounding -/

/-- The integer nearest to `n / d`; halfway between two, the even one. -/
def roundQuotient (n d : Nat) : Nat :=
  if d < 2 * (n % d) || (2 * (n % d) = d && n / d % 2 = 1) then n / d + 1 else n / d

/-- **A rounded quotient is off by at most half a unit.** -/
theorem roundQuotient_near (n : Nat) {d : Nat} (h : 0 < d) :
    2 * (d * roundQuotient n d) ≤ 2 * n + d ∧ 2 * n ≤ 2 * (d * roundQuotient n d) + d := by
  have hmod := Nat.mod_lt n h
  have hdiv := Nat.div_add_mod n d
  unfold roundQuotient
  split
  · next hup =>
      simp only [Bool.or_eq_true, Bool.and_eq_true, decide_eq_true_eq] at hup
      rw [Nat.mul_add, Nat.mul_one]
      omega
  · next hup =>
      simp only [Bool.or_eq_true, Bool.and_eq_true, decide_eq_true_eq, not_or] at hup
      omega

/-- The numerator and denominator of `n / d · 2 ^ (-e)`. -/
def scale (n d : Nat) (e : Int) : Nat × Nat := (n * Nat.pow 2 (-e).toNat, d * Nat.pow 2 e.toNat)

/-- The exponent at which `n / d` has a mantissa of 53 bits, or the least one. -/
def exponentFor (n d : Nat) : Int :=
  let guess : Int := n.log2 - d.log2 - 52
  let (n', d') := scale n d guess
  max leastExponent (if n' < d' * Nat.pow 2 52 then guess - 1 else guess)

/-- The number `m · 2 ^ e`, where rounding may have carried `m` up to `2 ^ 53`. -/
def normal (m : Nat) (e : Int) : Binary64 :=
  if m = Nat.pow 2 53 then ⟨Nat.pow 2 52, e + 1⟩ else ⟨m, e⟩

/-- The nearest number of the format to `n / d`, or `none` beyond the finite ones. -/
def ofQuotient? (n d : Nat) : Option Binary64 :=
  if n = 0 then some zero
  else
    let e := exponentFor n d
    let (n', d') := scale n d e
    let m := roundQuotient n' d'
    if overflowExponent ≤ e + m.log2 then none else some (normal m e)

/-! ## Powers of ten -/

/-- The largest power of ten that the format holds. -/
def largestPower : Nat := 308

/-- The number nearest to `10 ^ k`, for `k` up to `largestPower`. -/
def powerOfTen (k : Nat) : Binary64 := (ofQuotient? (Nat.pow 10 k) 1).getD zero

/-- The rounded product. -/
def mul? (x y : Binary64) : Option Binary64 :=
  ofQuotient? (x.numerator * y.numerator) (x.denominator * y.denominator)

/-- The rounded quotient. -/
def div? (x y : Binary64) : Option Binary64 :=
  ofQuotient? (x.numerator * y.denominator) (x.denominator * y.numerator)

/-- Divides by a power of ten, at most `largestPower` places at a time; zero stays zero. -/
def shiftDown (x : Binary64) (places : Nat) : Binary64 :=
  if places ≤ largestPower then (x.div? (powerOfTen places)).getD zero
  else if x.isZero then x
  else shiftDown ((x.div? (powerOfTen largestPower)).getD zero) (places - largestPower)
termination_by places
decreasing_by simp [largestPower] at *; omega

/-- `significand · 10 ^ exponent`, rounded after each multiplication or division; `none` beyond the
    finite numbers. -/
def ofParts? (significand : Nat) (exponent : Int) : Option Binary64 := do
  let x ← ofQuotient? significand 1
  if exponent < 0 then return x.shiftDown (-exponent).toNat
  else if exponent ≤ largestPower then x.mul? (powerOfTen exponent.toNat)
  else if x.isZero then return x
  else none

end Binary64
end ScriptSpacing
