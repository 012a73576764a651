/-!
# `Text.Ranges` — sets of code points as sorted ranges

A property of the Unicode standard is a list of closed ranges of code points in ascending order. A
look-up walks the list and stops at the first range that begins beyond the code point.
-/

namespace ScriptSpacing
namespace Text

/-- Whether one of the ascending closed `ranges` holds `n`. -/
def inRanges (n : Nat) : List (Nat × Nat) → Bool
  | [] => false
  | (lo, hi) :: rest => if n < lo then false else n ≤ hi || inRanges n rest

/-- Ranges are ascending when each begins beyond the end of the one before it. -/
def ascending : List (Nat × Nat) → Bool
  | (lo, hi) :: (lo', hi') :: rest => lo ≤ hi && hi < lo' && ascending ((lo', hi') :: rest)
  | [(lo, hi)] => lo ≤ hi
  | [] => true

theorem lt_of_ascending_cons {lo hi : Nat} {rest : List (Nat × Nat)}
    (h : ascending ((lo, hi) :: rest) = true) : ∀ r ∈ rest, hi < r.1 := by
  induction rest generalizing lo hi with
  | nil => simp
  | cons r rest ih =>
      obtain ⟨lo', hi'⟩ := r
      simp only [ascending, Bool.and_eq_true, decide_eq_true_eq] at h
      intro r hr
      rcases List.mem_cons.mp hr with rfl | hr
      · exact h.1.2
      · have := ih h.2 r hr
        have hle : lo' ≤ hi' := by
          cases rest with
          | nil => simpa [ascending] using h.2
          | cons r' _ => simp [ascending] at h; exact h.2.1.1
        omega

/-- **The look-up is membership**: stopping early loses nothing when the ranges ascend. -/
theorem inRanges_iff {n : Nat} {ranges : List (Nat × Nat)} (h : ascending ranges = true) :
    inRanges n ranges = true ↔ ∃ r ∈ ranges, r.1 ≤ n ∧ n ≤ r.2 := by
  induction ranges with
  | nil => simp [inRanges]
  | cons r rest ih =>
      obtain ⟨lo, hi⟩ := r
      have hrest : ascending rest = true := by
        cases rest with
        | nil => rfl
        | cons r' _ => simp only [ascending, Bool.and_eq_true] at h; exact h.2
      have hlt := lt_of_ascending_cons h
      unfold inRanges
      split
      · next hn =>
          simp only [Bool.false_eq_true, List.mem_cons, false_iff, not_exists, not_and]
          rintro r (rfl | hr) hle
          · simp only at hle; omega
          · have := hlt r hr
            have : lo ≤ hi := by
              cases rest with
              | nil => simpa [ascending] using h
              | cons r' _ => simp [ascending] at h; exact h.1.1
            omega
      · next hn =>
          simp only [Bool.or_eq_true, decide_eq_true_eq, ih hrest, List.mem_cons, exists_eq_or_imp]
          simp only [Nat.not_lt] at hn
          simp [hn]

end Text
end ScriptSpacing
