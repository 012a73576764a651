import ScriptSpacing.Proofs.Spacing.Limit
import ScriptSpacing.Proofs.Token.Recut

/-!
# `Proofs.Spacing.Apply` — what a list of directives does

`limit_cases` says what one directive does to a chain. Here the chain is forgotten: a directive that has a
gap is a `Mark`, the number of that gap with the side and rule that decide its amount, and applying
directives in order is overwriting gaps in order (`applyAll_spec`). The solid entries stay, so the marks of
the later directives are what they were before the earlier ones were applied.

Overwriting is then a matter of lists. The last mark on a gap whose rule asks for an exact amount decides
it (`getElem?_overwrite_of_forall`), no other gap changes (`getElem?_overwrite_of_forall_not`), and what an
earlier round of the same marks wrote is gone when every one of them writes again (`overwrite_absorb`).
-/

namespace ScriptSpacing

/-- A gap that is limited, and what decides its amount. -/
structure Mark where
  gap  : Nat
  side : Side
  rule : Rule
deriving Repr, DecidableEq

namespace Mark
open Token (blankRun)

/-- The amount a preset asks for at a mark. -/
def amount (m : Mark) (preset : Preset) : Amount := preset.amount m.side m.rule

/-- The gaps after one mark has been limited. -/
def write (preset : Preset) (gs : List (List Token)) (m : Mark) : List (List Token) :=
  match m.amount preset with
  | .preserve => gs
  | .exact n  => gs.set m.gap (blankRun n.toNat)

/-- The gaps after all marks have been limited, in order. -/
def overwrite (preset : Preset) (ms : List Mark) (gs : List (List Token)) : List (List Token) :=
  ms.foldl (write preset) gs

variable {preset : Preset} {ms : List Mark} {gs gs' : List (List Token)} {i n : Nat}

theorem overwrite_cons (m : Mark) (ms : List Mark) (gs : List (List Token)) :
    overwrite preset (m :: ms) gs = overwrite preset ms (write preset gs m) := rfl

theorem overwrite_append (ms ms' : List Mark) (gs : List (List Token)) :
    overwrite preset (ms ++ ms') gs = overwrite preset ms' (overwrite preset ms gs) :=
  List.foldl_append

@[simp] theorem length_write (gs : List (List Token)) (m : Mark) :
    (write preset gs m).length = gs.length := by
  unfold write
  split
  · rfl
  · exact List.length_set

@[simp] theorem length_overwrite (ms : List Mark) (gs : List (List Token)) :
    (overwrite preset ms gs).length = gs.length := by
  induction ms generalizing gs with
  | nil => rfl
  | cons m ms ih => rw [overwrite_cons, ih, length_write]

/-- A mark elsewhere leaves a gap alone, and so does one that preserves. -/
theorem getElem?_write_of_not {m : Mark} (h : m.gap = i → m.amount preset = .preserve) :
    (write preset gs m)[i]? = gs[i]? := by
  unfold write
  split
  · rfl
  · next n hn =>
      have hne : m.gap ≠ i := fun hgap => by rw [h hgap] at hn; cases hn
      exact List.getElem?_set_ne hne

/-- What a mark writes does not depend on what was there. -/
theorem getElem?_write_congr {m : Mark} (hlen : gs.length = gs'.length)
    (h : gs[i]? = gs'[i]? ∨ (m.gap = i ∧ m.amount preset ≠ .preserve)) :
    (write preset gs m)[i]? = (write preset gs' m)[i]? := by
  unfold write
  split
  · next hp =>
      rcases h with h | ⟨-, hne⟩
      · exact h
      · exact absurd hp hne
  · rw [List.getElem?_set, List.getElem?_set, hlen]
    split
    · rfl
    · next hgap =>
        rcases h with h | ⟨hi, -⟩
        · exact h
        · exact absurd hi hgap

/-- **A gap without a mark that asks for an amount stays what it was.** -/
theorem getElem?_overwrite_of_forall_not
    (h : ∀ m ∈ ms, m.gap = i → m.amount preset = .preserve) :
    (overwrite preset ms gs)[i]? = gs[i]? := by
  induction ms generalizing gs with
  | nil => rfl
  | cons m ms ih =>
      rw [overwrite_cons, ih fun m' hm' => h m' (List.mem_cons_of_mem _ hm'),
        getElem?_write_of_not (h m List.mem_cons_self)]

/-- **A gap with a mark that asks for an amount does not depend on what it was.** -/
theorem getElem?_overwrite_congr (hlen : gs.length = gs'.length)
    (h : gs[i]? = gs'[i]? ∨ ∃ m ∈ ms, m.gap = i ∧ m.amount preset ≠ .preserve) :
    (overwrite preset ms gs)[i]? = (overwrite preset ms gs')[i]? := by
  induction ms generalizing gs gs' with
  | nil =>
      rcases h with h | ⟨m, hm, -⟩
      · exact h
      · cases hm
  | cons m ms ih =>
      rw [overwrite_cons, overwrite_cons]
      refine ih (by rw [length_write, length_write, hlen]) ?_
      rcases h with h | ⟨m', hm', hgap, hne⟩
      · exact .inl (getElem?_write_congr hlen (.inl h))
      · rcases List.mem_cons.mp hm' with rfl | hm'
        · exact .inl (getElem?_write_congr hlen (.inr ⟨hgap, hne⟩))
        · exact .inr ⟨m', hm', hgap, hne⟩

/-- Where an amount is there already, marks that agree on it write it once more. -/
theorem getElem?_overwrite_of_eq {n : UInt8}
    (hall : ∀ m ∈ ms, m.gap = i → m.amount preset = .exact n) (hgs : gs[i]? = some (blankRun n.toNat)) :
    (overwrite preset ms gs)[i]? = some (blankRun n.toNat) := by
  induction ms generalizing gs with
  | nil => exact hgs
  | cons m ms ih =>
      refine ih (fun m' hm' => hall m' (List.mem_cons_of_mem _ hm')) ?_
      by_cases hgap : m.gap = i
      · have hlt : i < gs.length := (List.getElem?_eq_some_iff.mp hgs).1
        simp only [write, hall m List.mem_cons_self hgap, hgap]
        exact List.getElem?_set_self hlt
      · rw [getElem?_write_of_not fun h => absurd h hgap, hgs]

/-- **A gap whose marks agree gets the amount they ask for.** -/
theorem getElem?_overwrite_of_forall {n : UInt8} (hi : i < gs.length)
    (hmem : ∃ m ∈ ms, m.gap = i) (hall : ∀ m ∈ ms, m.gap = i → m.amount preset = .exact n) :
    (overwrite preset ms gs)[i]? = some (blankRun n.toNat) := by
  -- the gap may be taken to hold the amount from the start
  obtain ⟨m, hm, hgap⟩ := hmem
  have hexact := hall m hm hgap
  have hcongr : (overwrite preset ms gs)[i]? =
      (overwrite preset ms (gs.set i (blankRun n.toNat)))[i]? :=
    getElem?_overwrite_congr (by simp)
      (.inr ⟨m, hm, hgap, by rw [hexact]; exact Amount.noConfusion⟩)
  rw [hcongr]
  exact getElem?_overwrite_of_eq hall (List.getElem?_set_self hi)

/-- **Overwriting absorbs**: a round of marks leaves no trace of an earlier round of the same marks, when
    each mark that asked for an amount then asks for one now. -/
theorem overwrite_absorb {p q : Preset}
    (h : ∀ m ∈ ms, m.amount q = .preserve → m.amount p = .preserve) (gs : List (List Token)) :
    overwrite q ms (overwrite p ms gs) = overwrite q ms gs := by
  apply List.ext_getElem?
  intro i
  by_cases hmark : ∃ m ∈ ms, m.gap = i ∧ m.amount q ≠ .preserve
  · exact getElem?_overwrite_congr (length_overwrite ms gs) (.inr hmark)
  · have hq : ∀ m ∈ ms, m.gap = i → m.amount q = .preserve := by
      intro m hm hgap
      by_contra hne
      exact hmark ⟨m, hm, hgap, hne⟩
    rw [getElem?_overwrite_of_forall_not hq, getElem?_overwrite_of_forall_not hq,
      getElem?_overwrite_of_forall_not fun m hm hgap => h m hm (hq m hm hgap)]

end Mark

/-! ## Directives as marks -/

namespace Directive

/-- The mark of a directive among the solid entries `us`, if it has a gap. -/
def mark? (us : List Linked) (d : Directive) : Option Mark :=
  (d.gap? us).map (⟨·, d.side, d.rule⟩)

/-- A directive on the inner side of a parenthesis among the entries `us`. -/
def Inward (us : List Linked) (d : Directive) : Prop :=
  ∃ e ∈ us, e.1 = d.token ∧
    ((d.side = .after ∧ e.2.text = "(") ∨ (d.side = .before ∧ e.2.text = ")"))

/-- Entries after some edits of whitespace: the solid ones are the same, their gaps are `gs`, and the tokens
    are cut as they are. -/
structure Spaced (es es' : List Linked) (gs : List (List Token)) : Prop where
  solids : Linked.solids es' = Linked.solids es
  gaps   : Token.gaps (es'.map (·.2)) = gs
  cut    : Token.Cut (es'.map (·.2))

variable {ch : Chain} {es : List Linked} {d : Directive} {ds : List Directive}

/-- The token of an inward directive is solid. -/
theorem Inward.token_mem {us : List Linked} (h : d.Inward us) : d.token ∈ us.map (·.1) := by
  obtain ⟨e, he, hed, -⟩ := h
  rw [← hed]
  exact List.mem_map_of_mem he

/-- An entry is found only under its own handle. -/
theorem Inward.eq_of_mem {e : Linked} (h : d.Inward (Linked.solids es))
    (hnd : (es.map (·.1)).Nodup) (he : e ∈ es) (hed : e.1 = d.token) :
    (d.side = .after ∧ e.2.text = "(") ∨ (d.side = .before ∧ e.2.text = ")") := by
  obtain ⟨f, hf, hfd, hside⟩ := h
  have hf' : f ∈ es := List.mem_of_mem_filter hf
  obtain rfl : e = f := List.inj_on_of_nodup_map hnd he hf' (hed.trans hfd.symm)
  exact hside

/-- A directive that preserves, or has no gap, leaves no mark. -/
theorem overwrite_mark?_of_not {preset : Preset} {us : List Linked} {gs : List (List Token)}
    (h : preset.amount d.side d.rule = .preserve ∨ d.gap? us = none) :
    Mark.overwrite preset (d.mark? us).toList gs = gs := by
  rcases h with hp | hgap
  · cases hmark : d.mark? us with
    | none => rfl
    | some m =>
        obtain ⟨g, -, rfl⟩ := Option.map_eq_some_iff.mp hmark
        simp only [Option.toList_some, Mark.overwrite_cons, Mark.write, Mark.amount, hp]
        rfl
  · rw [mark?, hgap]
    rfl

/-- The mark of a directive sets its gap. -/
theorem overwrite_mark?_of_gap {preset : Preset} {us : List Linked} {gs : List (List Token)} {g : Nat}
    {n : UInt8} (hgap : d.gap? us = some g) (hn : preset.amount d.side d.rule = .exact n) :
    Mark.overwrite preset (d.mark? us).toList gs = gs.set g (Token.blankRun n.toNat) := by
  simp only [mark?, hgap, Option.map_some, Option.toList_some, Mark.overwrite, List.foldl_cons,
    List.foldl_nil, Mark.write, Mark.amount, hn]

/-- **One directive writes its mark.** -/
theorem limit_spec (preset : Preset) (h : Chain.Holds ch es) (hcut : Token.Cut (es.map (·.2)))
    (hd : d.Inward (Linked.solids es)) :
    ∃ es', Chain.Holds (d.limit (preset.amount d.side d.rule) ch).chain es' ∧
      Spaced es es' (Mark.overwrite preset (d.mark? (Linked.solids es)).toList
        (Token.gaps (es.map (·.2)))) := by
  rcases limit_cases h hd.token_mem (preset.amount d.side d.rule) with
    ⟨hlimit, hnone⟩ | ⟨n, A, x, G, y, B, G', hamount, hes, hr, hholds, htext⟩
  · exact ⟨es, by rw [hlimit]; exact h, rfl, (overwrite_mark?_of_not hnone).symm, hcut⟩
  · have hnd := h.nodup
    subst hes
    have hG : ∀ t ∈ G.map (·.2), t.isSolid = false := by
      intro t ht
      obtain ⟨e, he, rfl⟩ := List.mem_map.mp ht
      exact hr.blank e he
    have hG' : ∀ e ∈ G', e.2.isSolid = false := by
      intro e he
      exact Token.isSolid_of_mem_blankRun (htext ▸ List.mem_map_of_mem he)
    have hsplit : ∀ H : List Linked, (A ++ x :: (H ++ y :: B)).map (·.2) =
        A.map (·.2) ++ x.2 :: (H.map (·.2) ++ y.2 :: B.map (·.2)) := by
      intro H
      simp
    rw [hsplit] at hcut
    refine ⟨_, hholds, ?_, ?_, ?_⟩
    · rw [Linked.solids_between hG', Linked.solids_between hr.blank]
    · rw [overwrite_mark?_of_gap hr.gap hamount, hsplit, hsplit, htext,
        Token.gaps_set hr.left hr.right hG fun t ht => Token.isSolid_of_mem_blankRun ht,
        Linked.length_solids]
    · rw [hsplit, htext]
      refine hcut.resize hr.left hr.right hG ?_ n.toNat
      -- one of the two entries is the directive's own, which is a parenthesis
      rcases hr.side with ⟨hside, htok, -⟩ | ⟨hside, htok, -⟩
      · have := hd.eq_of_mem hnd (e := x) (by simp) htok.symm
        simp_all
      · have := hd.eq_of_mem hnd (e := y) (by simp) htok.symm
        simp_all

/-- **Directives write their marks in order**, on a chain whose tokens are cut as they are, and leave it
    so. -/
theorem applyAll_spec (preset : Preset) (h : Chain.Holds ch es) (hcut : Token.Cut (es.map (·.2)))
    (hds : ∀ d ∈ ds, d.Inward (Linked.solids es)) :
    ∃ es', Chain.Holds (applyAll ds preset ch).chain es' ∧
      Spaced es es' (Mark.overwrite preset (ds.filterMap (mark? (Linked.solids es)))
        (Token.gaps (es.map (·.2)))) := by
  -- solid entries stay, so the marks of the later directives are those of the first list
  have hfold : ∀ (ds : List Directive) (e : Edited) (es : List Linked), Chain.Holds e.chain es →
      Token.Cut (es.map (·.2)) → (∀ d ∈ ds, d.Inward (Linked.solids es)) →
      ∃ es', Chain.Holds (ds.foldl (step preset) e).chain es' ∧
        Spaced es es' (Mark.overwrite preset (ds.filterMap (mark? (Linked.solids es)))
          (Token.gaps (es.map (·.2)))) := by
    intro ds
    induction ds with
    | nil =>
        intro e es h hcut _
        exact ⟨es, h, rfl, rfl, hcut⟩
    | cons d ds ih =>
        intro e es h hcut hds
        obtain ⟨es₁, h₁, hsp₁⟩ :=
          limit_spec preset h hcut (hds d List.mem_cons_self)
        obtain ⟨es₂, h₂, hsp₂⟩ := ih (step preset e d) es₁ h₁ hsp₁.cut fun d' hd' => by
          rw [hsp₁.solids]
          exact hds d' (List.mem_cons_of_mem _ hd')
        refine ⟨es₂, h₂, hsp₂.solids.trans hsp₁.solids, ?_, hsp₂.cut⟩
        rw [hsp₂.gaps, hsp₁.gaps, hsp₁.solids, List.filterMap_cons]
        cases hmark : d.mark? (Linked.solids es) with
        | none => rfl
        | some m => rfl
  exact hfold ds ⟨ch, 0⟩ es h hcut hds

end Directive
end ScriptSpacing
