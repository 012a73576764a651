import ScriptSpacing.Proofs.Spacing.Apply
import ScriptSpacing.Proofs.Spacing.Edits

/-!
# `Proofs.Spacing.Counted` — the count of changes is the number of changed gaps

Every directive adds to one counter how many tokens it put in, took out or rewrote. That is not yet a fact
about the outcome: a directive could undo what one before it did, and a gap of several tokens counts more than
once. In a list that is cut a gap is one token or none, so a directive counts one exactly where it changes its
gap (`limit_changed`). And where directives on one gap ask for one amount, the first of them to change the gap
is the only one: two changes in a row never meet in a gap (`altered_add`), and so the counter comes to the
number of gaps that differ between the first list and the last (`applyAll_changed`).
-/

namespace ScriptSpacing

/-! ## Gaps that differ -/

namespace Token

/-- The number of gaps in which two lists of gaps differ. -/
def altered (gs gs' : List (List Token)) : Nat :=
  (List.range gs.length).countP fun g => gs[g]? ≠ gs'[g]?

variable {gs gs' gs'' : List (List Token)} {G G' : List Token} {i : Nat}

theorem altered_self (gs : List (List Token)) : altered gs gs = 0 := by
  simp [altered]

/-- Setting one gap changes that gap or nothing. -/
theorem altered_set (hG : gs[i]? = some G) :
    altered gs (gs.set i G') = if G = G' then 0 else 1 := by
  obtain ⟨hi, hget⟩ := List.getElem?_eq_some_iff.mp hG
  split
  · next heq =>
      rw [← heq, ← hget, List.set_getElem_self]
      exact altered_self gs
  · next hne =>
      have hcongr : altered gs (gs.set i G') = (List.range gs.length).countP (· == i) := by
        apply List.countP_congr
        intro j _
        by_cases hj : i = j
        · subst hj
          rw [List.getElem?_set_self hi, hG]
          simp [hne]
        · rw [List.getElem?_set_ne hj]
          simp [Ne.symm hj]
      rw [hcongr, ← List.count_eq_countP]
      exact List.count_eq_one_of_mem List.nodup_range (List.mem_range.mpr hi)

/-- **Changes add up** where no gap is changed twice. -/
theorem altered_add (hlen : gs.length = gs'.length)
    (h : ∀ g : Nat, gs[g]? = gs'[g]? ∨ gs'[g]? = gs''[g]?) :
    altered gs gs'' = altered gs gs' + altered gs' gs'' := by
  rw [altered, altered, altered, ← hlen]
  induction List.range gs.length with
  | nil => rfl
  | cons g l ih =>
      rw [List.countP_cons, List.countP_cons, List.countP_cons, ih]
      rcases h g with hsame | hsame
      · rw [hsame]
        simp only [ne_eq, not_true_eq_false, decide_false, Bool.false_eq_true, if_false]
        omega
      · rw [hsame]
        simp only [ne_eq, not_true_eq_false, decide_false, Bool.false_eq_true, if_false]
        omega

/-- Nothing is altered exactly where the gaps are the same. -/
theorem altered_eq_zero_iff (hlen : gs.length = gs'.length) : altered gs gs' = 0 ↔ gs = gs' := by
  rw [altered, List.countP_eq_zero]
  constructor
  · intro h
    apply List.ext_getElem?
    intro g
    by_cases hg : g < gs.length
    · simpa using h g (List.mem_range.mpr hg)
    · rw [List.getElem?_eq_none (Nat.le_of_not_lt hg),
        List.getElem?_eq_none (by rw [← hlen]; exact Nat.le_of_not_lt hg)]
  · rintro rfl
    simp

end Token

/-- **A gap is written once** by marks that agree: the first leaves it as it was, or the others leave it as the
    first made it. -/
theorem Mark.written_once {preset : Preset} {m : Mark} {ms : List Mark} {gs : List (List Token)}
    (hagree : ∀ m' ∈ ms, m'.gap = m.gap → m' = m) (g : Nat) :
    gs[g]? = (write preset gs m)[g]? ∨
      (write preset gs m)[g]? = (overwrite preset ms (write preset gs m))[g]? := by
  cases hamount : m.amount preset with
  | preserve => exact .inl (getElem?_write_of_not fun _ => hamount).symm
  | exact n =>
      by_cases hgap : m.gap = g
      · by_cases hg : g < gs.length
        · right
          have hwrite : (write preset gs m)[g]? = some (Token.blankRun n.toNat) := by
            simp only [write, hamount, hgap]
            exact List.getElem?_set_self hg
          rw [hwrite, getElem?_overwrite_of_eq _ hwrite]
          intro m' hm' hgap'
          rw [hagree m' hm' (hgap'.trans hgap.symm), hamount]
        · left
          rw [List.getElem?_eq_none (Nat.le_of_not_lt hg),
            List.getElem?_eq_none (by rw [length_write]; exact Nat.le_of_not_lt hg)]
      · exact .inl (getElem?_write_of_not fun h => absurd h hgap).symm

/-! ## One directive -/

namespace Directive
open Token (altered gaps)

variable {ch : Chain} {es us A B G K : List Linked} {x y : Linked} {d : Directive}

/-- **Resizing one whitespace token or none** counts one, unless it is already what is asked for. -/
theorem resize_changed (h : Chain.Holds ch es) (hK : ∀ k ∈ K, k ∈ es)
    (hblank : ∀ k ∈ K, k.2.isSolid = false) (hlen : K.length ≤ 1) (side : Side) (id : TokenId)
    (n : Nat) : (resize ch side id (K.map (·.1)) n).changed =
      if K.map (·.2) = Token.blankRun n then 0 else 1 := by
  match K with
  | [] =>
      by_cases hn : n = 0
      · simp [resize, Token.blankRun, hn]
      · simp [resize, Token.blankRun, hn]
  | [k] =>
      by_cases hn : n = 0
      · simp [resize, Token.blankRun, hn]
      have htest := h.test_eq (hK k List.mem_cons_self) (·.is (Token.spaces n).text)
      have hchanged : (resize ch side id [k.1] n).changed =
          if ch.test (·.is (Token.spaces n).text) k.1 then 0 else 1 := by
        simp only [resize, if_neg hn, Chain.removeAll, List.foldl_nil]
        exact apply_ite Edited.changed _ _ _
      rw [List.map_singleton, List.map_singleton, hchanged, htest, Token.blankRun, if_neg hn]
      by_cases htext : k.2.text = (Token.spaces n).text
      · rw [if_pos (Token.is_eq_true.mpr htext),
          eq_spaces_of_text (hblank k List.mem_cons_self) htext, if_pos rfl]
      · rw [if_neg (by rwa [Token.is_eq_true]), if_neg]
        intro heq
        exact htext (congrArg Token.text (List.cons.inj heq).1)

/-- A directive on a gap of one token or none resizes that gap, from whichever side. -/
theorem Resizes.limit_eq (hr : Resizes us d A x G y)
    (h : Chain.Holds ch (A ++ x :: (G ++ y :: B))) (hlen : G.length ≤ 1) (n : UInt8) :
    d.limit (.exact n) ch = resize ch d.side d.token (G.map (·.1)) n.toNat := by
  rcases hr.side with ⟨hside, htoken, hbreak⟩ | ⟨hside, htoken, hbreak⟩
  · obtain ⟨hrun, hbeyond⟩ := Linked.run_after hr.blank hr.right A B
    rw [Directive.limit_eq h htoken, hside, hrun, hbeyond, Option.all_some, hbreak, htoken]
    rfl
  · obtain ⟨hrun, hbeyond⟩ := Linked.run_before hr.blank hr.left A B
    have hsplit : A ++ x :: (G ++ y :: B) = (A ++ x :: G) ++ y :: B := by simp
    have hreverse : G.reverse = G := by
      match G with
      | [] => rfl
      | [g] => rfl
    rw [hsplit] at h
    rw [Directive.limit_eq h htoken, hside, hrun, hbeyond, Option.all_some, hbreak, htoken, hreverse]
    rfl

/-- **A directive counts one exactly where it changes its gap.** -/
theorem limit_changed (preset : Preset) (h : Chain.Holds ch es) (hcut : Token.Cut (es.map (·.2)))
    (hd : d.token ∈ (Linked.solids es).map (·.1)) :
    (d.limit (preset.amount d.side d.rule) ch).changed =
      altered (gaps (es.map (·.2))) (Mark.overwrite preset (d.mark? (Linked.solids es)).toList
        (gaps (es.map (·.2)))) := by
  rcases limit_cases h hd (preset.amount d.side d.rule) with
    ⟨hlimit, hnone⟩ | ⟨n, A, x, G, y, B, G', hamount, rfl, hr, -, -⟩
  · rw [hlimit, overwrite_mark?_of_not hnone, Token.altered_self]
  · have hblank : ∀ t ∈ G.map (·.2), t.isSolid = false := by
      intro t ht
      obtain ⟨e, he, rfl⟩ := List.mem_map.mp ht
      exact hr.blank e he
    have hgap : (gaps ((A ++ x :: (G ++ y :: B)).map (·.2)))[(Linked.solids A).length + 1]? =
        some (G.map (·.2)) := by
      have hsplit : (A ++ x :: (G ++ y :: B)).map (·.2) =
          A.map (·.2) ++ x.2 :: (G.map (·.2) ++ y.2 :: B.map (·.2)) := by simp
      rw [hsplit, Linked.length_solids]
      have hget := Token.getElem?_gaps_append_cons hr.left (A.map (·.2))
        (G.map (·.2) ++ y.2 :: B.map (·.2)) 0
      rwa [Token.gaps_append_cons_of_blank hblank hr.right] at hget
    have hlen : G.length ≤ 1 := by
      have hle := hcut.length_le_one_of_mem_gaps (List.mem_of_getElem? hgap)
      rwa [List.length_map] at hle
    rw [overwrite_mark?_of_gap hr.gap hamount, Token.altered_set hgap, hamount, hr.limit_eq h hlen]
    exact resize_changed h (fun k hk => by simp [hk]) hr.blank hlen d.side d.token n.toNat

/-! ## All directives -/

/-- **The count of changes is the number of gaps that differ**, where directives on one gap leave one mark. -/
theorem applyAll_changed (preset : Preset) (ds : List Directive) (h : Chain.Holds ch es)
    (hcut : Token.Cut (es.map (·.2))) (hds : ∀ d ∈ ds, d.Inward (Linked.solids es))
    (hagree : ∀ m ∈ ds.filterMap (mark? (Linked.solids es)),
      ∀ m' ∈ ds.filterMap (mark? (Linked.solids es)), m.gap = m'.gap → m = m') :
    (applyAll ds preset ch).changed = altered (gaps (es.map (·.2)))
      (Mark.overwrite preset (ds.filterMap (mark? (Linked.solids es))) (gaps (es.map (·.2)))) := by
  induction ds generalizing ch es with
  | nil => exact (Token.altered_self (gaps (es.map (·.2)))).symm
  | cons d ds ih =>
      have hinward := hds d List.mem_cons_self
      have hmarks : (d :: ds).filterMap (mark? (Linked.solids es)) =
          (d.mark? (Linked.solids es)).toList ++ ds.filterMap (mark? (Linked.solids es)) := by
        rw [List.filterMap_cons]
        cases d.mark? (Linked.solids es) <;> rfl
      rw [hmarks] at hagree ⊢
      -- the first directive leaves the solid entries, so the others have the marks they had
      obtain ⟨es', hes', hspaced⟩ := limit_spec preset h hcut hinward
      have hrest := ih hes' hspaced.cut
      rw [hspaced.solids, hspaced.gaps] at hrest
      specialize hrest (fun d' hd' => hds d' (List.mem_cons_of_mem _ hd'))
      specialize hrest fun m hm m' hm' =>
        hagree m (List.mem_append_right _ hm) m' (List.mem_append_right _ hm')
      rw [applyAll_cons, Mark.overwrite_append, hrest, limit_changed preset h hcut hinward.token_mem]
      refine (Token.altered_add (Mark.length_overwrite _ _).symm fun g => ?_).symm
      cases hmark : d.mark? (Linked.solids es) with
      | none => exact .inl rfl
      | some m =>
          apply Mark.written_once
          intro m' hm' hgap
          rw [hmark] at hagree
          exact hagree m' (List.mem_append_right _ hm') m List.mem_cons_self hgap

end Directive
end ScriptSpacing
