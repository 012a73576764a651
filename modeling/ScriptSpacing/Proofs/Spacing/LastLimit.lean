import ScriptSpacing.Proofs.Spacing.Edits

/-!
# `Proofs.Spacing.LastLimit` — the last directive on a gap decides it

Directives may repeat and contradict each other, and one gap may be limited from both of its ends. Each is
applied to what the ones before it left, so none of them sees the text as it was. All the same the outcome
has a closed form, `Limits`: a gap that some directive is effective on is what the last of these asks for,
and every other gap keeps its very entries.

Which gap a directive is about depends on the solid entries alone (`Directive.Effective`), and those stay.
That is what lets the closed forms of two lists of directives be put together (`Limits.trans`), so the form
for one directive gives the form for all.
-/

namespace ScriptSpacing

open Chain (Operation)

/-! ## Gaps of entries -/

namespace Linked

/-- The runs of whitespace entries before, between and behind the solid entries: gap `i` lies directly in
    front of solid entry `i`, and the last gap behind all of them. -/
def gaps (es : List Linked) : List (List Linked) := es.splitOnP (·.2.isSolid)

variable {es A B G G' : List Linked} {x y : Linked}

/-- The gaps of entries hold the gaps of their tokens. -/
theorem map_map_snd_gaps (es : List Linked) :
    (gaps es).map (·.map (·.2)) = Token.gaps (es.map (·.2)) := by
  induction es with
  | nil => rfl
  | cons e es ih =>
      rw [gaps, List.splitOnP_cons_eq_if_modifyHead, List.map_cons, Token.gaps, ← ih]
      split
      · rfl
      · rw [gaps]
        cases es.splitOnP (·.2.isSolid) <;> rfl

theorem length_gaps (es : List Linked) : (gaps es).length = (solids es).length + 1 := by
  have htokens := congrArg List.length (map_map_snd_gaps es)
  rw [List.length_map, Token.length_gaps, ← length_solids] at htokens
  exact htokens

/-- A solid entry ends one gap and begins another. -/
theorem gaps_append_cons (hx : x.2.isSolid = true) (A B : List Linked) :
    gaps (A ++ x :: B) = gaps A ++ gaps B := List.splitOnP_append_cons A B hx

/-- Replacing the gap between two neighbours. -/
theorem gaps_set (hx : x.2.isSolid = true) (hy : y.2.isSolid = true)
    (hG : ∀ e ∈ G, e.2.isSolid = false) (hG' : ∀ e ∈ G', e.2.isSolid = false) (A B : List Linked) :
    gaps (A ++ x :: (G' ++ y :: B)) =
      (gaps (A ++ x :: (G ++ y :: B))).set ((solids A).length + 1) G' := by
  have hsplit : ∀ H : List Linked, (∀ e ∈ H, e.2.isSolid = false) →
      gaps (A ++ x :: (H ++ y :: B)) = gaps A ++ H :: gaps B := by
    intro H hH
    have hbehind : gaps (H ++ y :: B) = H :: gaps B :=
      List.splitOnP_append_cons_of_forall_mem hH y hy B
    rw [gaps_append_cons hx, hbehind]
  rw [hsplit G hG, hsplit G' hG', ← length_gaps, List.set_append_right _ _ (Nat.le_refl _),
    Nat.sub_self, List.set_cons_zero]

end Linked

/-! ## Effective directives -/

namespace Directive

/-- **`d` limits gap `g` to `n` spaces**, among the solid entries `us`: the gap lies between two of them,
    one is the directive's token and the other is no line break, and its rule asks for that amount. -/
def Effective (preset : Preset) (us : List Linked) (d : Directive) (g : Nat) (n : UInt8) : Prop :=
  preset.amount d.side d.rule = .exact n ∧ ∃ A t u B, us = A ++ t :: u :: B ∧ g = A.length + 1 ∧
    ((d.side = .after ∧ d.token = t.1 ∧ u.2.isLineBreak = false) ∨
      (d.side = .before ∧ d.token = u.1 ∧ t.2.isLineBreak = false))

section Gap

variable {preset : Preset} {es us : List Linked} {d : Directive} {g : Nat} {n : UInt8}

/-- A directive that is effective on a gap has that gap and no other. -/
theorem Effective.gap? (h : Effective preset us d g n) (hnd : (us.map (·.1)).Nodup) :
    d.gap? us = some g := by
  obtain ⟨-, A, t, u, B, rfl, rfl, hside⟩ := h
  exact gap?_between hnd hside

/-- A gap that is limited has a solid entry on either side. -/
theorem Effective.gap_bounds (h : Effective preset us d g n) : 0 < g ∧ g < us.length := by
  obtain ⟨-, A, t, u, B, rfl, rfl, -⟩ := h
  simp

/-- The token of an effective directive is solid. -/
theorem Effective.token_mem (h : Effective preset us d g n) : d.token ∈ us.map (·.1) := by
  obtain ⟨-, A, t, u, B, rfl, -, ⟨-, htok, -⟩ | ⟨-, htok, -⟩⟩ := h
  · simp [htok]
  · simp [htok]

/-- A directive on one of two neighbours is effective on the gap between them. -/
theorem Effective.of_between {A G B : List Linked} {x y : Linked}
    (hn : preset.amount d.side d.rule = .exact n) (hx : x.2.isSolid = true)
    (hG : ∀ e ∈ G, e.2.isSolid = false) (hy : y.2.isSolid = true)
    (hside : (d.side = .after ∧ d.token = x.1 ∧ y.2.isLineBreak = false) ∨
      (d.side = .before ∧ d.token = y.1 ∧ x.2.isLineBreak = false)) :
    Effective preset (Linked.solids (A ++ x :: (G ++ y :: B))) d ((Linked.solids A).length + 1) n := by
  refine ⟨hn, Linked.solids A, x, y, Linked.solids B, ?_, rfl, hside⟩
  rw [Linked.solids_append_cons hx, Linked.solids_blank_append hG hy]

end Gap
end Directive

/-! ## The closed form -/

/-- **`es'` are the entries `es` with their gaps limited by the directives `ds`.** -/
structure Limits (preset : Preset) (ds : List Directive) (es es' : List Linked) : Prop where
  solids : Linked.solids es' = Linked.solids es
  /-- a gap is what the last directive that is effective on it asks for -/
  last   : ∀ D d E g n, ds = D ++ d :: E → d.Effective preset (Linked.solids es) g n →
    (∀ d' ∈ E, ∀ m, ¬ d'.Effective preset (Linked.solids es) g m) →
    ∃ G, (Linked.gaps es')[g]? = some G ∧ G.map (·.2) = Token.blankRun n.toNat
  /-- every other gap keeps its entries -/
  others : ∀ g, (∀ d ∈ ds, ∀ n, ¬ d.Effective preset (Linked.solids es) g n) →
    (Linked.gaps es')[g]? = (Linked.gaps es)[g]?

namespace Limits

variable {preset : Preset} {d : Directive} {ds ds' : List Directive} {es es' es'' : List Linked}

theorem refl (preset : Preset) (es : List Linked) : Limits preset [] es es where
  solids := rfl
  last   := fun D d E _ _ hds => by simp at hds
  others := fun _ _ => rfl

/-- Where a directive is effective on no gap, nothing changes. -/
theorem of_not_effective (h : ∀ g n, ¬ d.Effective preset (Linked.solids es) g n) :
    Limits preset [d] es es where
  solids := rfl
  last   := by
    intro D d' E g n hds heff
    obtain rfl : d' = d := by
      have hmem : d' ∈ [d] := by rw [hds]; simp
      simpa using hmem
    exact absurd heff (h g n)
  others := fun _ _ => rfl

/-- **Limits on limited gaps**: what the first directives did to a gap is kept or written over. -/
theorem trans (h : Limits preset ds es es') (h' : Limits preset ds' es' es'') :
    Limits preset (ds ++ ds') es es'' where
  solids := h'.solids.trans h.solids
  last   := by
    intro D d E g n hsplit heff hE
    have hsolids := h.solids
    rcases Chain.split_of_append_eq hsplit with ⟨M, rfl, rfl⟩ | ⟨M, rfl, rfl⟩
    · -- the last effective one is among the first directives, and the others keep its gap
      have hM : ∀ d' ∈ M, ∀ m, ¬ d'.Effective preset (Linked.solids es) g m := fun d' hd' =>
        hE d' (List.mem_append_left _ hd')
      have hds' : ∀ d' ∈ ds', ∀ m, ¬ d'.Effective preset (Linked.solids es') g m := fun d' hd' => by
        rw [hsolids]
        exact hE d' (List.mem_append_right _ hd')
      obtain ⟨G, hG, htext⟩ := h.last D d M g n rfl heff hM
      exact ⟨G, (h'.others g hds').trans hG, htext⟩
    · rw [← hsolids] at heff hE
      exact h'.last M d E g n rfl heff hE
  others := by
    intro g hnone
    have hds' : ∀ d' ∈ ds', ∀ m, ¬ d'.Effective preset (Linked.solids es') g m := fun d' hd' => by
      rw [h.solids]
      exact hnone d' (List.mem_append_right _ hd')
    exact (h'.others g hds').trans (h.others g fun d' hd' => hnone d' (List.mem_append_left _ hd'))

/-- The whitespace in front of all solid entries stays. -/
theorem head? (h : Limits preset ds es es') :
    (Linked.gaps es').head? = (Linked.gaps es).head? := by
  rw [List.head?_eq_getElem?, List.head?_eq_getElem?]
  exact h.others 0 fun d _ n heff => absurd heff.gap_bounds.1 (Nat.lt_irrefl 0)

/-- The whitespace behind all solid entries stays. -/
theorem getLast? (h : Limits preset ds es es') :
    (Linked.gaps es').getLast? = (Linked.gaps es).getLast? := by
  rw [List.getLast?_eq_getElem?, List.getLast?_eq_getElem?, Linked.length_gaps, Linked.length_gaps,
    h.solids]
  exact h.others _ fun d _ n heff => absurd heff.gap_bounds.2 (Nat.lt_irrefl _)

/-- What holds of some directive holds of a last one. -/
theorem exists_last {α : Type} {p : α → Prop} :
    ∀ {l : List α}, (∃ x ∈ l, p x) → ∃ D x E, l = D ++ x :: E ∧ p x ∧ ∀ y ∈ E, ¬ p y
  | [], h => by simp at h
  | a :: l, h => by
    by_cases hl : ∃ x ∈ l, p x
    · obtain ⟨D, x, E, rfl, hx, hE⟩ := exists_last hl
      exact ⟨a :: D, x, E, rfl, hx, hE⟩
    · obtain ⟨x, hx, hpx⟩ := h
      rcases List.mem_cons.mp hx with rfl | hx
      · exact ⟨[], x, l, rfl, hpx, fun y hy hpy => hl ⟨y, hy, hpy⟩⟩
      · exact absurd ⟨x, hx, hpx⟩ hl

/-- **Limiting again changes no token.** -/
theorem map_snd_eq (h : Limits preset ds es es') (h' : Limits preset ds es' es'') :
    es''.map (·.2) = es'.map (·.2) := by
  apply Token.eq_of_solids_gaps
  · rw [← Linked.map_snd_solids, ← Linked.map_snd_solids, h'.solids]
  · rw [← Linked.map_map_snd_gaps, ← Linked.map_map_snd_gaps]
    apply List.ext_getElem?
    intro g
    rw [List.getElem?_map, List.getElem?_map]
    by_cases hsome : ∃ d ∈ ds, ∃ n, d.Effective preset (Linked.solids es) g n
    · -- both times the gap is what its last effective directive asks for
      obtain ⟨D, d, E, hsplit, ⟨n, heff⟩, hE⟩ := exists_last hsome
      have hE' : ∀ d' ∈ E, ∀ m, ¬ d'.Effective preset (Linked.solids es) g m := fun d' hd' m hm =>
        hE d' hd' ⟨m, hm⟩
      obtain ⟨G, hG, htext⟩ := h.last D d E g n hsplit heff hE'
      rw [← h.solids] at heff hE'
      obtain ⟨G', hG', htext'⟩ := h'.last D d E g n hsplit heff hE'
      rw [hG, hG', Option.map_some, Option.map_some, htext, htext']
    · have hnone : ∀ d ∈ ds, ∀ n, ¬ d.Effective preset (Linked.solids es') g n := by
        intro d hd n heff
        rw [h.solids] at heff
        exact hsome ⟨d, hd, n, heff⟩
      rw [h'.others g hnone]

end Limits

/-! ## Directives have the closed form -/

namespace Directive

variable {ch : Chain} {es : List Linked}

/-- **One directive** on a token that is not whitespace. -/
theorem limits_limit (preset : Preset) (h : Chain.Holds ch es) (d : Directive)
    (hd : ch.test Token.isSolid d.token = true) :
    ∃ es', Chain.Holds (d.limit (preset.amount d.side d.rule) ch).chain es' ∧
      Limits preset [d] es es' := by
  have hnd := Linked.nodup_solids h.nodup
  by_cases htoken : d.token ∈ (Linked.solids es).map (·.1)
  · rcases limit_cases h htoken (preset.amount d.side d.rule) with
      ⟨hlimit, hnone⟩ | ⟨n, A, x, G, y, B, G', hamount, rfl, hr, hholds, htext⟩
    · refine ⟨es, by rw [hlimit]; exact h, .of_not_effective fun g n heff => ?_⟩
      rcases hnone with hp | hgap
      · rw [heff.1] at hp
        cases hp
      · rw [heff.gap? hnd] at hgap
        cases hgap
    · have hG' : ∀ e ∈ G', e.2.isSolid = false := fun e he =>
        Token.isSolid_of_mem_blankRun (htext ▸ List.mem_map_of_mem he)
      have hset := Linked.gaps_set hr.left hr.right hr.blank hG' A B
      refine ⟨_, hholds, ?_, ?_, ?_⟩
      · rw [Linked.solids_between hG', Linked.solids_between hr.blank]
      · intro D d' E g m hds heff _
        obtain rfl : d' = d := by
          have hmem : d' ∈ [d] := by rw [hds]; simp
          simpa using hmem
        obtain rfl : g = (Linked.solids A).length + 1 :=
          Option.some.inj ((heff.gap? hnd).symm.trans hr.gap)
        obtain rfl : m = n := Amount.exact.inj (heff.1.symm.trans hamount)
        refine ⟨G', ?_, htext⟩
        rw [hset, List.getElem?_set_self]
        rw [Linked.length_gaps]
        exact Nat.lt_succ_of_lt heff.gap_bounds.2
      · intro g hnone
        have hne : (Linked.solids A).length + 1 ≠ g := by
          rintro rfl
          exact hnone d (by simp) n (.of_between hamount hr.left hr.blank hr.right hr.side)
        rw [hset, List.getElem?_set_ne hne]
  · -- the token was taken out: it is not whitespace, so it would be among the solid entries
    have hout : ch.contains d.token = false := by
      rw [Bool.eq_false_iff]
      intro hin
      obtain ⟨A, e, B, rfl, he⟩ := h.split_of_contains hin
      rw [← he, h.test_eq (by simp)] at hd
      exact htoken (by rw [← he, Linked.solids_append_cons hd]; simp)
    refine ⟨es, by rw [limit_of_not_contains hout]; exact h, .of_not_effective fun g n heff => ?_⟩
    exact htoken heff.token_mem

/-- **Directives in order**, on tokens that are not whitespace. -/
theorem limits_applyAll (preset : Preset) : ∀ (ds : List Directive) {ch : Chain},
    Chain.Holds ch ch.entries → (∀ d ∈ ds, ch.test Token.isSolid d.token = true) →
    Limits preset ds ch.entries (applyAll ds preset ch).chain.entries
  | [], ch, _, _ => .refl preset ch.entries
  | d :: ds, ch, h, hds => by
    obtain ⟨es, hes, hfirst⟩ := limits_limit preset h d (hds d List.mem_cons_self)
    have hframed := (edits_operations d (preset.amount d.side d.rule) ch).1.framed h
    -- the tokens of the later directives are still what they were
    have hrest := limits_applyAll preset ds hframed.holds fun d' hd' =>
      hframed.test_isSolid (hds d' (List.mem_cons_of_mem _ hd'))
    rw [hes.entries_eq] at hrest
    rw [applyAll_cons]
    exact hfirst.trans hrest

/-- **The last effective directive decides a gap**, on a chain with any history, and of directives on
    tokens that are not whitespace, linked or not: every other gap keeps its entries, the one in front of
    all solid entries and the one behind them among these, and the solid entries themselves stay. Applying
    the directives again leaves the text as it is. -/
theorem applyAll_last {ops : List Operation} {ch : Chain} (h : Chain.empty.run? ops = some ch)
    (preset : Preset) {ds : List Directive}
    (hds : ∀ d ∈ ds, ch.test Token.isSolid d.token = true) :
    let once := (applyAll ds preset ch).chain
    let us := Linked.solids ch.entries
    (∀ D d E g n, ds = D ++ d :: E → d.Effective preset us g n →
      (∀ d' ∈ E, ∀ m, ¬ d'.Effective preset us g m) →
      ∃ G, (Linked.gaps once.entries)[g]? = some G ∧ G.map (·.2) = Token.blankRun n.toNat) ∧
    (∀ g, (∀ d ∈ ds, ∀ n, ¬ d.Effective preset us g n) →
      (Linked.gaps once.entries)[g]? = (Linked.gaps ch.entries)[g]?) ∧
    (Linked.gaps once.entries).head? = (Linked.gaps ch.entries).head? ∧
    (Linked.gaps once.entries).getLast? = (Linked.gaps ch.entries).getLast? ∧
    Linked.solids once.entries = us ∧
    (applyAll ds preset once).chain.source = once.source := by
  intro once us
  have hch := Chain.holds_of_run? h
  have honce := limits_applyAll preset ds hch hds
  have hframed := framed_applyAll hch ds preset
  have htwice := limits_applyAll preset ds hframed.holds fun d hd => hframed.test_isSolid (hds d hd)
  refine ⟨honce.last, honce.others, honce.head?, honce.getLast?, honce.solids, ?_⟩
  rw [Chain.source, Chain.source, Chain.toList, Chain.toList, honce.map_snd_eq htwice]

/-- A gap limited from both of its ends, to two spaces and to none: the third of the directives is the
    last one on it, and the fourth is about the gap behind. -/
theorem applyAll_last_conflict :
    let ts : List Token := [⟨.punctuator, "("⟩, ⟨.whiteSpace, " "⟩, ⟨.whiteSpace, "\t"⟩,
      ⟨.identifier, "a"⟩, ⟨.whiteSpace, " "⟩, ⟨.punctuator, ")"⟩]
    let ch := Chain.ofList ts
    let preset := (Preset.empty.set .after .openingParenthesis (.exact 2)).set .before
      .closingParenthesis (.exact 0)
    let opening : Directive := ⟨0, .after, .openingParenthesis⟩
    let closing : Directive := ⟨5, .before, .closingParenthesis⟩
    let ds : List Directive := [opening, ⟨3, .before, .closingParenthesis⟩, opening, closing]
    let once := (applyAll ds preset ch).chain
    (∃ G, (Linked.gaps once.entries)[1]? = some G ∧ G.map (·.2) = [Token.spaces 2]) ∧
      (applyAll ds preset once).chain.source = once.source ∧ once.source = "(  a)" := by
  intro ts ch preset opening closing ds once
  have hrun : Chain.empty.run? [.collect ts] = some ch := rfl
  have hds : ∀ d ∈ ds, ch.test Token.isSolid d.token = true := by decide +kernel
  have hsolids : Linked.solids ch.entries =
      [(0, ⟨.punctuator, "("⟩), (3, ⟨.identifier, "a"⟩), (5, ⟨.punctuator, ")"⟩)] := by
    decide +kernel
  obtain ⟨hlast, -, -, -, -, hagain⟩ := applyAll_last hrun preset hds
  have heffective : opening.Effective preset (Linked.solids ch.entries) 1 2 := by
    rw [hsolids]
    exact ⟨by decide, [], _, _, _, rfl, rfl, .inl ⟨rfl, rfl, rfl⟩⟩
  have hbehind : ∀ d ∈ [closing], ∀ n, ¬ d.Effective preset (Linked.solids ch.entries) 1 n := by
    intro d hd n heff
    obtain rfl : d = closing := by simpa using hd
    have hgap := heff.gap? (by rw [hsolids]; decide)
    rw [hsolids] at hgap
    exact absurd hgap (by decide)
  exact ⟨hlast [opening, ⟨3, .before, .closingParenthesis⟩] opening [closing] 1 2 rfl heffective hbehind,
    hagain, by decide +kernel⟩


end Directive
end ScriptSpacing
