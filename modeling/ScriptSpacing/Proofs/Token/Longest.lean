import Mathlib.Data.List.Infix
import Mathlib.Data.List.TakeWhile

/-!
# `Proofs.Token.Longest` — the longest text of a class at the front of a text

A class of texts is a predicate, and `Longest P w cs` says that of all the texts of the class `P` that
`cs` begins with, `w` is the longest. Such a text is the only one (`Longest.unique`). It depends on the
texts of the class alone that `cs` begins with, so it stays the longest when `cs` is changed elsewhere
(`Longest.congr`).

A text made of two parts is the longest of its kind when each of its parts is, provided that no second
part begins with a character of the first (`Longest.append`): a first part that is cut short cannot be
gone on with then.
-/

namespace ScriptSpacing
namespace Text

variable {P Q : List Char → Prop} {u v w cs cs' rest : List Char}

/-- **`w` is the longest text of the class `P` that `cs` begins with.** -/
structure Longest (P : List Char → Prop) (w cs : List Char) : Prop where
  isPrefix : w <+: cs
  mem      : P w
  le       : ∀ v, v <+: cs → P v → v.length ≤ w.length

/-- The texts of one class with a text of another behind them. -/
def Then (P Q : List Char → Prop) (w : List Char) : Prop := ∃ a b, P a ∧ Q b ∧ w = a ++ b

/-- The texts whose characters all satisfy `p`. -/
def All (p : Char → Bool) (w : List Char) : Prop := ∀ c ∈ w, p c = true

theorem All.nil {p : Char → Bool} : All p [] := fun _ hc => by cases hc

theorem All.cons {p : Char → Bool} {c : Char} (hc : p c = true) (hw : All p w) : All p (c :: w) :=
  List.forall_mem_cons.mpr ⟨hc, hw⟩

namespace Longest

theorem unique (h : Longest P w cs) (h' : Longest P v cs) : w = v := by
  have hle : w.length ≤ v.length := h'.le w h.isPrefix h.mem
  have hge : v.length ≤ w.length := h.le v h'.isPrefix h'.mem
  exact (List.prefix_of_prefix_length_le h.isPrefix h'.isPrefix hle).eq_of_length
    (Nat.le_antisymm hle hge)

/-- The longest text of a class is the longest of every part of the class that it is in. -/
theorem of_imp (h : Longest P w cs) (hsub : ∀ v, Q v → P v) (hw : Q w) : Longest Q w cs where
  isPrefix := h.isPrefix
  mem      := hw
  le       := fun v hv hQ => h.le v hv (hsub v hQ)

/-- **Only what a text begins with counts.** -/
theorem congr (h : Longest P w cs) (hw : w <+: cs')
    (hback : ∀ v, P v → v <+: cs' → v <+: cs) : Longest P w cs' where
  isPrefix := hw
  mem      := h.mem
  le       := fun v hv hP => h.le v (hback v hP hv) hP

/-- A text that no text of its class goes on from is the longest wherever it stands in front. -/
theorem of_prefixFree (hw : P w) (hpre : w <+: cs) (hfree : ∀ v, P v → w <+: v → v = w) :
    Longest P w cs where
  isPrefix := hpre
  mem      := hw
  le       := by
    intro v hv hP
    rcases Nat.le_total v.length w.length with hle | hge
    · exact hle
    · rw [hfree v hP (List.prefix_of_prefix_length_le hpre hv hge)]

/-- **Two longest parts make a longest whole**, if no second part begins with a character of the first. -/
theorem append (hcs : u ++ rest = cs) (hu : Longest P u cs) (hv : Longest Q v rest)
    (hapart : ∀ c ∈ u, ∀ b, ¬ Q (c :: b)) : Longest (Then P Q) (u ++ v) cs where
  isPrefix := by
    rw [← hcs]
    exact (List.prefix_append_right_inj u).mpr hv.isPrefix
  mem      := ⟨u, v, hu.mem, hv.mem, rfl⟩
  le       := by
    rintro w hw ⟨a, b, ha, hb, rfl⟩
    subst hcs
    have hpre : a <+: u ++ rest := (List.prefix_append a b).trans hw
    have hau : a <+: u :=
      List.prefix_of_prefix_length_le hpre hu.isPrefix (hu.le a hpre ha)
    obtain ⟨u', rfl⟩ := hau
    rw [List.append_assoc, List.prefix_append_right_inj] at hw
    rw [List.length_append, List.length_append, List.length_append]
    cases u' with
    | nil =>
        have hle : b.length ≤ v.length := hv.le b hw hb
        rw [List.length_nil]
        omega
    | cons c u' =>
        cases b with
        | nil =>
            rw [List.length_nil]
            omega
        | cons d b =>
            -- the second part would begin with what is left of the first
            obtain rfl : d = c := (List.cons_prefix_cons.mp hw).1
            exact absurd hb (hapart d (by simp) b)

end Longest

/-! ## Runs -/

/-- **The longest run of a class of characters.** -/
theorem longest_takeWhile (p : Char → Bool) (cs : List Char) :
    Longest (All p) (cs.takeWhile p) cs where
  isPrefix := List.takeWhile_prefix p
  mem      := fun _ hc => List.mem_takeWhile_imp hc
  le       := by
    rintro v ⟨r, rfl⟩ hall
    rw [List.takeWhile_append_of_pos hall, List.length_append]
    omega

/-- A run behind some first characters of its class. -/
theorem longest_run {p : Char → Bool} (hP : ∀ v, P v → All p v) (hw : P (cs.takeWhile p)) :
    Longest P (cs.takeWhile p) cs := (longest_takeWhile p cs).of_imp hP hw

/-! ## Tables -/

/-- **The first hit of a table that goes from longer to shorter entries is the longest.** -/
theorem longest_find? {table : List (List Char)}
    (hsorted : table.Pairwise fun a b => b.length ≤ a.length)
    (h : table.find? (·.isPrefixOf cs) = some w) : Longest (· ∈ table) w cs := by
  obtain ⟨hpre, front, back, rfl, hfront⟩ := List.find?_eq_some_iff_append.mp h
  refine ⟨List.isPrefixOf_iff_prefix.mp hpre, by simp, ?_⟩
  intro v hv hmem
  rcases List.mem_append.mp hmem with hmem | hmem
  · have hno := hfront v hmem
    rw [Bool.not_eq_true', ← Bool.not_eq_true, List.isPrefixOf_iff_prefix] at hno
    exact absurd hv hno
  · rcases List.mem_cons.mp hmem with rfl | hmem
    · exact Nat.le_refl _
    · exact List.rel_of_pairwise_cons (List.pairwise_append.mp hsorted).2.1 hmem

end Text
end ScriptSpacing
