import Mathlib.Data.List.Lex
import Mathlib.Order.RelIso.Basic
import ScriptSpacing.FileTree.Scripts

/-!
# `Proofs.FileTree.PlaceOrder` — places in the order of their names

Names are in the order of their bytes, and places in that of their names. Both orders are linear, so a list of
places can be put in order in one way only; it is the order in which scripts are put (`placeLe_iff`).
-/

namespace ScriptSpacing

/-! ## Names -/

/-- The order of names by their bytes. -/
def Name.Before (a b : Name) : Prop := List.Lex (· < ·) a.bytes b.bytes

theorem Name.before_iff {a b : Name} : a.before b = true ↔ a.Before b := by
  rw [before, List.lex_eq_true_iff_lex]
  simp only [decide_eq_true_eq]
  exact Iff.rfl

/-- Lists are in a linear order if what they list is. -/
theorem isStrictTotalOrder_lex {α : Type} (r : α → α → Prop) [IsStrictTotalOrder α r] :
    IsStrictTotalOrder (List α) (List.Lex r) :=
  { isStrictWeakOrder_of_isOrderConnected with }

instance : IsStrictTotalOrder Name Name.Before := by
  have hbyte : IsStrictTotalOrder UInt8 (· < ·) :=
    (RelEmbedding.preimage ⟨UInt8.toNat, fun _ _ => UInt8.toNat.inj⟩ (· < ·)).isStrictTotalOrder
  have hbytes : IsStrictTotalOrder (List UInt8) (List.Lex (· < ·)) := isStrictTotalOrder_lex _
  have hinjective : Function.Injective Name.bytes := fun a b h => by
    cases a
    exact congrArg Name.mk h
  exact (RelEmbedding.preimage ⟨Name.bytes, hinjective⟩ (List.Lex (· < ·))).isStrictTotalOrder

/-! ## Places -/

/-- The order of places, name by name. -/
def PlaceBefore : List Name → List Name → Prop := List.Lex Name.Before

instance : IsStrictTotalOrder (List Name) PlaceBefore := isStrictTotalOrder_lex _

/-- **Scripts are put in the order of their places.** -/
theorem placeLe_iff {p q : List Name} : placeLe p q = true ↔ p = q ∨ PlaceBefore p q := by
  rw [PlaceBefore]
  induction p generalizing q with
  | nil =>
      cases q with
      | nil => simp [placeLe]
      | cons b q => simp [placeLe]
  | cons a p ih =>
      cases q with
      | nil => simp [placeLe]
      | cons b q =>
          rw [placeLe]
          by_cases hab : a = b
          · subst hab
            rw [if_pos rfl, ih, List.lex_cons_iff, List.cons_inj_right]
          · rw [if_neg hab, Name.before_iff]
            constructor
            · exact fun h => .inr (.rel h)
            · rintro (h | h)
              · exact absurd (List.cons.inj h).1 hab
              · cases h with
                | rel h  => exact h
                | cons _ => exact absurd rfl hab

theorem placeLe_trans {p q r : List Name} (h : placeLe p q = true) (h' : placeLe q r = true) :
    placeLe p r = true := by
  rw [placeLe_iff] at *
  rcases h with rfl | h
  · exact h'
  · rcases h' with rfl | h'
    · exact .inr h
    · exact .inr (trans_of PlaceBefore h h')

theorem placeLe_total (p q : List Name) : (placeLe p q || placeLe q p) = true := by
  rw [Bool.or_eq_true, placeLe_iff, placeLe_iff]
  rcases trichotomous_of PlaceBefore p q with h | rfl | h
  · exact .inl (.inr h)
  · exact .inl (.inl rfl)
  · exact .inr (.inr h)

theorem placeLe_antisymm {p q : List Name} (h : placeLe p q = true) (h' : placeLe q p = true) : p = q := by
  rw [placeLe_iff] at h h'
  rcases h with rfl | h
  · rfl
  · rcases h' with rfl | h'
    · rfl
    · exact absurd h' (asymm_of PlaceBefore h)

end ScriptSpacing
