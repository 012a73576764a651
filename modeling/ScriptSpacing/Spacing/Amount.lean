/-!
# `Spacing.Amount` — how many spaces, or whatever is there

An amount is written as an integer: `-1` keeps the whitespace that is there, `0` to `255` ask for that
many spaces, and every other integer is refused with itself as the cause. `ofInt` and `toInt` are
inverse to each other on the integers that are accepted.
-/

namespace ScriptSpacing

/-- The whitespace asked for on one side of a token. -/
inductive Amount where
  /-- leave the whitespace as it is -/
  | preserve
  /-- exactly this many spaces -/
  | exact (spaces : UInt8)
deriving Repr, DecidableEq, Inhabited

/-- An integer that is no amount. -/
structure InvalidAmount where
  value : Int
deriving Repr, DecidableEq, Inhabited

namespace InvalidAmount

/-- The words for a refused amount. -/
def message (e : InvalidAmount) : String :=
  s!"invalid whitespace amount {e.value}, expected -1 or 0..=255"

end InvalidAmount

namespace Amount

/-- The amount an integer stands for. -/
def ofInt (v : Int) : Except InvalidAmount Amount :=
  if v = -1 then .ok .preserve
  else if 0 ≤ v ∧ v ≤ 255 then .ok (.exact v.toNat.toUInt8)
  else .error ⟨v⟩

/-- The integer that stands for an amount. -/
def toInt : Amount → Int
  | .preserve     => -1
  | .exact spaces => spaces.toNat

/-- The written form of an amount. -/
def text : Amount → String
  | .preserve     => "-1"
  | .exact spaces => toString spaces.toNat

theorem ofInt_toInt (a : Amount) : ofInt a.toInt = .ok a := by
  cases a with
  | preserve => rfl
  | exact n =>
      have hn : n.toNat < 256 := n.toNat_lt
      have h1 : ¬ ((n.toNat : Int) = -1) := by omega
      have h2 : 0 ≤ (n.toNat : Int) ∧ (n.toNat : Int) ≤ 255 := by omega
      simp [ofInt, toInt, h1, h2.2]

/-- **Exactly the integers from `-1` to `255` are amounts**, and an amount is read as the integer that
    stands for it. -/
theorem ofInt_eq_ok_iff {v : Int} {a : Amount} : ofInt v = .ok a ↔ v = a.toInt := by
  refine ⟨fun h => ?_, fun h => h ▸ ofInt_toInt a⟩
  unfold ofInt at h
  split at h
  · cases h; assumption
  · split at h
    · next hv =>
        cases h
        simp only [toInt, Nat.toUInt8, UInt8.toNat_ofNat']
        omega
    · cases h

/-- A refused integer is its own cause. -/
theorem ofInt_eq_error_iff {v : Int} {e : InvalidAmount} :
    ofInt v = .error e ↔ (v < -1 ∨ 255 < v) ∧ e = ⟨v⟩ := by
  unfold ofInt
  split
  · simp only [reduceCtorEq, false_iff]; omega
  · split
    · simp only [reduceCtorEq, false_iff]; omega
    · simp only [Except.error.injEq]
      constructor
      · rintro rfl; exact ⟨by omega, rfl⟩
      · rintro ⟨-, rfl⟩; rfl

end Amount
end ScriptSpacing
