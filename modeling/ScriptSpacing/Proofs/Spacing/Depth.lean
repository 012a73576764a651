import Mathlib.Algebra.Ring.Int.Defs
import Mathlib.Data.Nat.Find
import ScriptSpacing.Proofs.Syntax.Brackets
import ScriptSpacing.Spacing.Pair

/-!
# `Proofs.Spacing.Depth` — the parenthesis that closes another, by position

The closing parenthesis of a pair is where the depth of parentheses first returns to what it was in front of
the opening. `Code.Closes code k m` says so of two positions among the code tokens. Between them the depth
stays above (`Closes.lt_depth`), so the token at `m` is a `)` and there is one such `m` at most. Brackets that
nest keep the depth up (`Nests.depth_le`), so parentheses directly around what was read as a part close
each other (`closes_of_nests`).
-/

namespace ScriptSpacing
namespace Code
open Chain (depthStep)

/-- The depth of parentheses in front of a position. -/
def depth (code : Code) (p : Nat) : Int :=
  ((code.tokens.toList.take p).map (fun e => depthStep e.2)).sum

variable {code : Code} {k m p q : Nat} {e : TokenId × Token}

theorem depth_succ (h : code.at? p = some e) :
    code.depth (p + 1) = code.depth p + depthStep e.2 := by
  have hlist : code.tokens.toList[p]? = some e := by simpa [at?] using h
  rw [depth, depth, List.take_add_one, hlist]
  simp

theorem exists_at? (h : p < code.size) : ∃ e, code.at? p = some e := by
  cases hat : code.at? p with
  | none => exact absurd (at?_eq_none_iff.mp hat) (Nat.not_le_of_lt h)
  | some e => exact ⟨e, rfl⟩

theorem is_eq_true_iff {s : String} :
    code.is p s = true ↔ ∃ e, code.at? p = some e ∧ e.2.text = s := by
  simp [is, Option.any_eq_true]

theorem is_eq_of_at? (h : code.at? p = some e) (s : String) : code.is p s = e.2.is s := by
  rw [is, h]
  rfl

theorem depthStep_of_open {t : Token} (h : t.text = "(") : depthStep t = 1 := by
  simp [depthStep, Token.is, h]

theorem depthStep_of_close {t : Token} (h : t.text = ")") : depthStep t = -1 := by
  simp [depthStep, Token.is, h]

theorem depthStep_of_ne {t : Token} (hopen : t.text ≠ "(") (hclose : t.text ≠ ")") :
    depthStep t = 0 := by
  simp [depthStep, Token.is, hopen, hclose]

theorem depthStep_cases (t : Token) : depthStep t = 1 ∨ (depthStep t = -1 ∧ t.text = ")") ∨
    depthStep t = 0 := by
  by_cases hopen : t.text = "("
  · exact .inl (depthStep_of_open hopen)
  by_cases hclose : t.text = ")"
  · exact .inr (.inl ⟨depthStep_of_close hclose, hclose⟩)
  · exact .inr (.inr (depthStep_of_ne hopen hclose))

/-- **The parenthesis at `k` is closed at `m`**: behind `m` the depth is, for the first time, what it was
    in front of `k`. -/
structure Closes (code : Code) (k m : Nat) : Prop where
  opener : code.is k "(" = true
  lt     : k < m
  inside : m < code.size
  level  : code.depth (m + 1) = code.depth k
  first  : ∀ q, k < q → q ≤ m → code.depth q ≠ code.depth k

namespace Closes

/-- From the opening on the depth stays above, up to the closing. -/
theorem lt_depth (h : code.Closes k m) : ∀ {q : Nat}, k < q → q ≤ m → code.depth k < code.depth q := by
  intro q
  induction q with
  | zero => exact fun hk => absurd hk (Nat.not_lt_zero k)
  | succ q ih =>
      intro hk hm
      rcases Nat.eq_or_lt_of_le (Nat.le_of_lt_succ hk) with rfl | hlt
      · obtain ⟨e, he, htext⟩ := is_eq_true_iff.mp h.opener
        rw [depth_succ he, depthStep_of_open htext]
        omega
      -- the depth moves by one, and may not be what it was in front of the opening
      · have habove := ih hlt (by omega)
        have hinside := h.inside
        obtain ⟨e, he⟩ : ∃ e, code.at? q = some e := exists_at? (by omega)
        have hne := h.first (q + 1) hk hm
        rw [depth_succ he] at hne ⊢
        rcases depthStep_cases e.2 with hs | ⟨hs, -⟩ | hs <;> rw [hs] at hne ⊢ <;> omega

/-- What closes is a closing parenthesis. -/
theorem closer (h : code.Closes k m) : code.is m ")" = true := by
  obtain ⟨e, he⟩ := exists_at? h.inside
  have hlevel := h.level
  have habove := h.lt_depth h.lt (Nat.le_refl m)
  rw [depth_succ he] at hlevel
  rcases depthStep_cases e.2 with hs | ⟨-, htext⟩ | hs
  · omega
  · exact is_eq_true_iff.mpr ⟨e, he, htext⟩
  · omega

/-- **A parenthesis is closed once.** -/
theorem unique {m' : Nat} (h : code.Closes k m) (h' : code.Closes k m') : m = m' := by
  rcases Nat.lt_trichotomy m m' with hlt | rfl | hlt
  · exact absurd h.level (h'.first (m + 1) (Nat.lt_succ_of_lt h.lt) hlt)
  · rfl
  · exact absurd h'.level (h.first (m' + 1) (Nat.lt_succ_of_lt h'.lt) hlt)

end Closes
end Code

namespace Grammar
open Chain (depthStep)
open Code

variable {code : Code} {p q k m : Nat} {σ τ : List String}

/-- The parentheses that are awaited. -/
def awaited (σ : List String) : Int := σ.count ")"

theorem awaited_follow {t : Token} (h : follow σ t.text = some τ) :
    awaited τ = awaited σ + depthStep t := by
  unfold follow at h
  split at h
  · next closer hcloser =>
      cases h
      unfold closerOf? at hcloser
      split at hcloser
      · next htext =>
          cases hcloser
          rw [depthStep_of_open htext]
          simp [awaited]
      · next hopen =>
          have hclose : t.text ≠ ")" := by
            rintro htext
            simp [htext] at hcloser
          have hne : closer ≠ ")" := by
            split at hcloser
            · cases hcloser
              decide
            split at hcloser
            · cases hcloser
              decide
            · cases hcloser
          rw [depthStep_of_ne hopen hclose]
          simp [awaited, hne]
  -- not an opener: a closer takes itself off the stack, any other text leaves it
  · next hcloser =>
      have hopen : t.text ≠ "(" := by
        rintro htext
        simp [closerOf?, htext] at hcloser
      split at h
      · split at h
        · next hhead =>
            cases h
            obtain ⟨ρ, rfl⟩ : ∃ ρ, σ = t.text :: ρ := by
              cases σ with
              | nil => cases hhead
              | cons s ρ => exact ⟨ρ, by simpa using hhead⟩
            by_cases hclose : t.text = ")"
            · rw [depthStep_of_close hclose, hclose]
              simp only [awaited, List.tail_cons, List.count_cons_self]
              omega
            · rw [depthStep_of_ne hopen hclose]
              simp [awaited, hclose]
        · cases h
      · next hmem =>
          cases h
          have hclose : t.text ≠ ")" := by
            intro htext
            exact hmem (by rw [htext]; decide)
          rw [depthStep_of_ne hopen hclose]
          simp

/-- The depth changes by the parentheses that come to be awaited. -/
theorem Nests.depth_eq (h : Nests code p σ q τ) :
    code.depth q = code.depth p + awaited τ - awaited σ := by
  induction h with
  | refl => omega
  | step hat hfollow _ ih =>
      have := depth_succ hat
      have := awaited_follow hfollow
      omega

/-- **Where brackets nest the depth never falls below its start**, and returns to it. -/
theorem Nests.depth_le (h : Nests code p [] q []) (hp : p ≤ m) (hq : m ≤ q) :
    code.depth p ≤ code.depth m ∧ code.depth q = code.depth p := by
  obtain ⟨ρ, hfront, -⟩ := h.exists_between hp hq
  have hm := hfront.depth_eq
  have hend := h.depth_eq
  have hpos : (0 : Int) ≤ awaited ρ := Int.natCast_nonneg _
  have hnil : awaited [] = 0 := rfl
  exact ⟨by omega, by omega⟩

/-- **Parentheses directly around nested brackets close each other.** -/
theorem closes_of_nests (hopen : code.is k "(" = true) (h : Nests code (k + 1) [] m [])
    (hclose : code.is m ")" = true) : code.Closes k m := by
  obtain ⟨a, ha, hatext⟩ := is_eq_true_iff.mp hopen
  obtain ⟨b, hb, hbtext⟩ := is_eq_true_iff.mp hclose
  have hstart := depth_succ ha
  have hend := depth_succ hb
  rw [depthStep_of_open hatext] at hstart
  rw [depthStep_of_close hbtext] at hend
  have hlevel := (h.depth_le h.le (Nat.le_refl m)).2
  refine ⟨hopen, h.le, lt_size_of_at? hb, by omega, fun q hk hm => ?_⟩
  have := (h.depth_le hk hm).1
  omega

/-- A parenthesis directly in front of nested brackets is not closed among them. -/
theorem Nests.le_of_closes (h : Nests code (k + 1) [] q []) (hcloses : code.Closes k m) : q ≤ m := by
  by_contra hlt
  obtain ⟨a, ha, htext⟩ := is_eq_true_iff.mp hcloses.opener
  have hstart := depth_succ ha
  rw [depthStep_of_open htext] at hstart
  have hlt' := hcloses.lt
  have hge := (h.depth_le (show k + 1 ≤ m + 1 by omega) (by omega)).1
  have hlevel := hcloses.level
  omega

/-- **A parenthesis that stands where brackets nest is closed there.** -/
theorem Nests.exists_closes (h : Nests code p [] q []) (hlt : p < q)
    (hopen : code.is p "(" = true) : ∃ m, m < q ∧ code.Closes p m := by
  obtain ⟨a, ha, htext⟩ := is_eq_true_iff.mp hopen
  have hstart := depth_succ ha
  rw [depthStep_of_open htext] at hstart
  -- the depth is again what it was at the end, so there is a first position where it is
  have hend : p < q ∧ code.depth q = code.depth p := ⟨hlt, (h.depth_le h.le (Nat.le_refl q)).2⟩
  have hex : ∃ r, p < r ∧ code.depth r = code.depth p := ⟨q, hend⟩
  obtain ⟨r, ⟨hr, hlevel⟩, hleast⟩ : ∃ r, (p < r ∧ code.depth r = code.depth p) ∧
      ∀ s, s < r → ¬(p < s ∧ code.depth s = code.depth p) :=
    ⟨Nat.find hex, Nat.find_spec hex, fun s => Nat.find_min hex⟩
  obtain ⟨m, rfl⟩ : ∃ m, r = m + 1 := ⟨r - 1, by omega⟩
  have hle : m + 1 ≤ q := by
    by_contra hgt
    exact hleast q (by omega) hend
  have hne : p ≠ m := by
    rintro rfl
    omega
  obtain ⟨e, he⟩ := h.exists_at? (show p ≤ m by omega) hle
  refine ⟨m, hle, hopen, by omega, lt_size_of_at? he, hlevel, ?_⟩
  intro s hs hm hdepth
  exact hleast s (by omega) ⟨hs, hdepth⟩

end Grammar
end ScriptSpacing
