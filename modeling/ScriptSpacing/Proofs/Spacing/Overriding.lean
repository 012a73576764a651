import Mathlib.Data.List.Induction
import Mathlib.Data.List.Nodup
import ScriptSpacing.Spacing.Preset

/-!
# `Proofs.Spacing.Overriding` — maps that override others

Amounts are put into a map one by one. What a name has afterwards is the last amount put in for it, or what it had
before (`get?_foldl_insert`). A map in which no name comes twice overrides another name by name.
-/

namespace ScriptSpacing
namespace Amounts

/-- No name has two entries. -/
def Distinct (m : Amounts) : Prop := (m.entries.map Prod.fst).Nodup

variable {m m' : Amounts} {es : List (String × Amount)} {name : String} {a : Amount}

/-! ## One entry by another -/

/-- **The last amount of a name counts**, and what it had before if there is none. -/
theorem get?_foldl_insert (es : List (String × Amount)) (m : Amounts) (name : String) :
    (es.foldl (fun m e => m.insert e.1 e.2) m).get? name = (es.reverse.lookup name).or (m.get? name) := by
  induction es using List.reverseRecOn with
  | nil => rfl
  | append_singleton es e ih =>
      rw [List.foldl_append, List.foldl_cons, List.foldl_nil, get?_insert, ih, List.reverse_append,
        List.reverse_singleton, List.singleton_append, lookup_cons]
      split <;> rfl

/-- Where no name comes twice, the last entry of a name is the first. -/
theorem lookup_reverse (h : (es.map Prod.fst).Nodup) (name : String) :
    es.reverse.lookup name = es.lookup name := by
  induction es with
  | nil => rfl
  | cons e es ih =>
      obtain ⟨hfresh, hrest⟩ := List.nodup_cons.mp h
      rw [List.reverse_cons, List.lookup_append, ih hrest, lookup_cons, lookup_cons]
      by_cases hname : name = e.1
      · have hnone : es.lookup name = none := by
          rw [List.lookup_eq_none_iff]
          intro p hp
          refine bne_iff_ne.mpr fun heq => hfresh ?_
          rw [← hname, heq]
          exact List.mem_map_of_mem hp
        rw [if_pos hname, hnone, if_pos hname]
        rfl
      · rw [if_neg hname, if_neg hname]
        exact Option.or_none

/-! ## Maps -/

/-- **A map overrides another name by name.** -/
theorem get?_overriddenBy (h : m'.Distinct) (m : Amounts) (name : String) :
    (m.overriddenBy m').get? name = (m'.get? name).or (m.get? name) := by
  have hlast := get?_foldl_insert m'.entries m name
  rw [lookup_reverse h] at hlast
  exact hlast

theorem map_fst_insertEntry (name : String) (a : Amount) (es : List (String × Amount)) :
    (insertEntry name a es).map Prod.fst =
      if name ∈ es.map Prod.fst then es.map Prod.fst else es.map Prod.fst ++ [name] := by
  induction es with
  | nil => rfl
  | cons e es ih =>
      unfold insertEntry
      by_cases hne : name = e.1
      · subst hne
        simp
      · have hb : (name == e.1) = false := beq_eq_false_iff_ne.mpr hne
        simp only [hb, Bool.false_eq_true, if_false, List.map_cons, ih, List.mem_cons, hne, false_or]
        split <;> rfl

theorem distinct_empty : empty.Distinct := List.nodup_nil

/-- Putting an amount in keeps the names apart. -/
theorem Distinct.insert (h : m.Distinct) (name : String) (a : Amount) : (m.insert name a).Distinct := by
  show ((insertEntry name a m.entries).map Prod.fst).Nodup
  rw [map_fst_insertEntry]
  split
  · exact h
  · next hname => exact List.Nodup.append h (List.nodup_singleton name) (by simpa using hname)

theorem Distinct.foldl_insert (h : m.Distinct) (es : List (String × Amount)) :
    (es.foldl (fun m e => m.insert e.1 e.2) m).Distinct := by
  induction es generalizing m with
  | nil => exact h
  | cons e es ih => exact ih (h.insert e.1 e.2)

end Amounts

namespace Preset

/-- No side has two entries for a name. -/
def Distinct (p : Preset) : Prop := ∀ s, (p.side s).Distinct

theorem side_overriddenBy (p q : Preset) (s : Side) :
    (p.overriddenBy q).side s = (p.side s).overriddenBy (q.side s) := by cases s <;> rfl

/-- **A preset overrides another side by side and name by name.** -/
theorem get?_side_overriddenBy {q : Preset} (h : q.Distinct) (p : Preset) (s : Side) (name : String) :
    ((p.overriddenBy q).side s).get? name = ((q.side s).get? name).or ((p.side s).get? name) := by
  rw [side_overriddenBy, Amounts.get?_overriddenBy (h s)]

/-- **The standard amounts**: no space inside parentheses, and all else is kept. -/
theorem amount_standard (s : Side) (r : Rule) :
    standard.amount s r =
      if s = .after ∧ r = .openingParenthesis ∨ s = .before ∧ r = .closingParenthesis then .exact 0
      else .preserve := by
  cases s <;> cases r <;> rfl

end Preset
end ScriptSpacing
