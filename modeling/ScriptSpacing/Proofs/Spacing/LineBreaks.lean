import ScriptSpacing.Proofs.Spacing.LastLimit

/-!
# `Proofs.Spacing.LineBreaks` — which directives leave line ends and indentation alone

A directive looks past the whitespace on its side of a token, and where it finds a line break or the edge of
the chain there it does nothing (`limit_eq`). It does not look at its own token. So whitespace behind a line
break is safe from every directive but those on the line break itself and those on a whitespace token in it,
and the same holds in front of a line break.

That is an exact account of one directive (`limit_eq_self_iff`) and, gap by gap, of any list of them, whatever
handles they name (`applyAll_keeps_gap`). A directive on the line break itself does strip indentation
(`limit_strips_indentation`).
-/

namespace ScriptSpacing

open Chain (Operation)

/-! ## Directives that change nothing -/

namespace Directive

variable {ch : Chain} {es A B K : List Linked} {e : Linked} {d : Directive} {n : Nat}

/-- **Resizing changes nothing exactly where the whitespace is already what is asked for.** -/
theorem resize_eq_self_iff (h : Chain.Holds ch es) (hK : ∀ k ∈ K, k ∈ es)
    (hblank : ∀ k ∈ K, k.2.isSolid = false) (side : Side) (id : TokenId) :
    resize ch side id (K.map (·.1)) n = ⟨ch, 0⟩ ↔ K.map (·.2) = Token.blankRun n := by
  -- a count that is not zero is a change
  have hcount : ∀ (c : Chain) (m : Nat), (⟨c, m + 1⟩ : Edited) ≠ ⟨ch, 0⟩ := fun c m heq =>
    absurd (congrArg Edited.changed heq) (Nat.succ_ne_zero m)
  cases K with
  | nil =>
      by_cases hn : n = 0
      · simp [resize, Token.blankRun, hn]
      · simp only [List.map_nil, resize, Token.blankRun, if_neg hn]
        exact iff_of_false (hcount _ 0) (by simp)
  | cons k rest =>
      have hk := h.tokens k (hK k List.mem_cons_self)
      have htest : (ch.removeAll (rest.map (·.1))).test (·.is (Token.spaces n).text) k.1 =
          k.2.is (Token.spaces n).text := by
        rw [Chain.test, Chain.get?_removeAll, hk]
        rfl
      by_cases hn : n = 0
      · simp only [List.map_cons, resize, Token.blankRun, if_pos hn]
        exact iff_of_false (hcount _ _) (by simp)
      · simp only [List.map_cons, resize, Token.blankRun, if_neg hn, htest]
        split
        · next htext =>
            have hspaces := eq_spaces_of_text (hblank k List.mem_cons_self) (Token.is_eq_true.mp htext)
            cases rest with
            | nil => exact iff_of_true rfl (by rw [hspaces]; rfl)
            | cons k' rest => exact iff_of_false (hcount _ _) (by simp)
        · next htext =>
            refine iff_of_false (hcount _ _) fun heq => htext ?_
            obtain ⟨hspaces, -⟩ := List.cons.inj heq
            rw [hspaces]
            exact Token.is_eq_true.mpr rfl

/-- **Which directives change nothing**: those whose rule preserves, those whose whitespace ends at a line
    break or at the edge, and those whose whitespace is already what they ask for. -/
theorem limit_eq_self_iff (h : Chain.Holds ch (A ++ e :: B)) (hd : d.token = e.1) (amount : Amount) :
    d.limit amount ch = ⟨ch, 0⟩ ↔ amount = .preserve ∨
      (Linked.beyond A B d.side).all (·.2.isLineBreak) = true ∨
      ∃ n, amount = .exact n ∧ (Linked.run A B d.side).map (·.2) = Token.blankRun n.toNat := by
  cases amount with
  | preserve => exact iff_of_true rfl (.inl rfl)
  | exact n =>
      rw [limit_eq h hd]
      split
      · next hbeyond => exact iff_of_true rfl (.inr (.inl hbeyond))
      · next hbeyond =>
          rw [resize_eq_self_iff h (fun _ => Linked.mem_of_mem_run) fun _ => Linked.blank_of_mem_run]
          constructor
          · exact fun hrun => .inr (.inr ⟨n, rfl, hrun⟩)
          · rintro (hp | hb | ⟨m, hm, hrun⟩)
            · cases hp
            · exact absurd hb hbeyond
            · rw [Amount.exact.inj hm]
              exact hrun

end Directive

/-! ## Gaps that are left alone -/

namespace Linked

variable {P R R' T : List Linked} {g : Nat}

/-- Entries begin with whitespace, and go on with a solid one or not at all. -/
theorem exists_blank_front (B : List Linked) : ∃ M T, B = M ++ T ∧ (∀ e ∈ M, e.2.isSolid = false) ∧
    T.head?.all (·.2.isSolid) = true := by
  rcases blank_or_next B with hall | ⟨G, y, B, rfl, hG, hy⟩
  · exact ⟨B, [], by simp, hall, rfl⟩
  · exact ⟨G, y :: B, rfl, hG, hy⟩

/-- Whitespace put behind entries goes into their last gap. -/
theorem exists_gaps_append (P : List Linked) : ∃ gs H, gs.length = (solids P).length ∧
    ∀ R : List Linked, (∀ e ∈ R, e.2.isSolid = false) → gaps (P ++ R) = gs ++ [H ++ R] := by
  have hblank : ∀ {H R : List Linked}, (∀ e ∈ H, e.2.isSolid = false) →
      (∀ e ∈ R, e.2.isSolid = false) → gaps (H ++ R) = [H ++ R] := fun hH hR =>
    List.splitOnP_eq_singleton fun e he => (List.mem_append.mp he).elim (hH e) (hR e)
  rcases blank_or_prev P with hP | ⟨A, x, H, rfl, hH, hx⟩
  · refine ⟨[], P, by rw [solids_eq_nil hP]; rfl, fun R hR => ?_⟩
    rw [hblank hP hR]
    rfl
  · refine ⟨gaps A, H, ?_, fun R hR => ?_⟩
    · rw [length_gaps, solids_append_blank hx hH, List.length_append, List.length_singleton]
    · rw [List.append_assoc, List.cons_append, gaps_append_cons hx, hblank hH hR]

/-- **Whitespace in the middle is part of one gap**, and no other gap depends on it. -/
theorem exists_gaps_around (P : List Linked) (hT : T.head?.all (·.2.isSolid) = true) :
    ∃ gs H hs, gs.length = (solids P).length ∧ ∀ R : List Linked, (∀ e ∈ R, e.2.isSolid = false) →
      gaps (P ++ (R ++ T)) = gs ++ (H ++ R) :: hs := by
  obtain ⟨gs, H, hlen, hgaps⟩ := exists_gaps_append P
  cases T with
  | nil => exact ⟨gs, H, [], hlen, fun R hR => by rw [List.append_nil, hgaps R hR]⟩
  | cons z B =>
      have hz : z.2.isSolid = true := hT
      refine ⟨gs, H, gaps B, hlen, fun R hR => ?_⟩
      rw [← List.append_assoc, gaps_append_cons hz, hgaps R hR, List.append_assoc]
      rfl

/-- Other gaps stay when whitespace is replaced. -/
theorem getElem?_gaps_of_ne (hT : T.head?.all (·.2.isSolid) = true)
    (hR : ∀ e ∈ R, e.2.isSolid = false) (hR' : ∀ e ∈ R', e.2.isSolid = false)
    (hg : g ≠ (solids P).length) : (gaps (P ++ (R' ++ T)))[g]? = (gaps (P ++ (R ++ T)))[g]? := by
  obtain ⟨gs, H, hs, hlen, hgaps⟩ := exists_gaps_around P hT
  rw [hgaps R hR, hgaps R' hR']
  rw [← hlen] at hg
  rcases Nat.lt_or_gt_of_ne hg with hlt | hgt
  · rw [List.getElem?_append_left hlt, List.getElem?_append_left hlt]
  · obtain ⟨i, rfl⟩ := Nat.exists_eq_add_of_lt hgt
    rw [List.getElem?_append_right (by omega), List.getElem?_append_right (by omega),
      show gs.length + i + 1 - gs.length = i + 1 by omega]
    rfl

/-- A gap stays when whitespace is replaced that has an entry the gap does not have. -/
theorem getElem?_gaps_of_mem {e : Linked} (hT : T.head?.all (·.2.isSolid) = true)
    (hR : ∀ e ∈ R, e.2.isSolid = false) (hR' : ∀ e ∈ R', e.2.isSolid = false) (he : e ∈ R)
    (hg : ∀ G, (gaps (P ++ (R ++ T)))[g]? = some G → ∀ f ∈ G, f.1 ≠ e.1) :
    (gaps (P ++ (R' ++ T)))[g]? = (gaps (P ++ (R ++ T)))[g]? := by
  refine getElem?_gaps_of_ne hT hR hR' ?_
  rintro rfl
  obtain ⟨gs, H, hs, hlen, hgaps⟩ := exists_gaps_around P hT
  rw [hgaps R hR, ← hlen, List.getElem?_append_right (Nat.le_refl _), Nat.sub_self] at hg
  exact hg (H ++ R) rfl e (List.mem_append_right H he) rfl

/-- The solid entries on either side of a gap. -/
def borders (us : List Linked) (g : Nat) : List Linked :=
  (us.take g).getLast?.toList ++ us[g]?.toList

/-- **A gap at a line end**: in front of all solid entries, behind all of them, or next to a line break. -/
def AtLineEnd (us : List Linked) (g : Nat) : Prop :=
  g = 0 ∨ us.length ≤ g ∨ ∃ e ∈ borders us g, e.2.isLineBreak = true

theorem borders_append_cons_cons (A B : List Linked) (t u : Linked) :
    borders (A ++ t :: u :: B) (A.length + 1) = [t, u] := by
  have htake : (A ++ t :: u :: B).take (A.length + 1) = A ++ [t] := by
    rw [List.take_length_add_append]
    rfl
  have hnext : (A ++ t :: u :: B)[A.length + 1]? = some u := by
    rw [List.getElem?_append_right (by omega), Nat.add_sub_cancel_left]
    rfl
  rw [borders, htake, hnext, List.getLast?_concat]
  rfl

end Linked

namespace Directive

section Keep

variable {preset : Preset} {ch : Chain} {es us G : List Linked} {d : Directive} {g : Nat} {n : UInt8}

/-- **A gap at a line end is limited from a line break only.** -/
theorem Effective.exists_lineBreak (h : d.Effective preset us g n) (hg : Linked.AtLineEnd us g) :
    ∃ e ∈ Linked.borders us g, e.1 = d.token ∧ e.2.isLineBreak = true := by
  have hbounds := h.gap_bounds
  obtain ⟨-, A, t, u, B, rfl, rfl, hside⟩ := h
  rw [Linked.AtLineEnd, Linked.borders_append_cons_cons] at hg
  rw [Linked.borders_append_cons_cons]
  rcases hg with h0 | hlen | ⟨e, he, hbreak⟩
  · exact absurd hbounds.1 (by omega)
  · exact absurd hbounds.2 (by omega)
  · refine ⟨e, he, ?_, hbreak⟩
    -- the entry at the other side of the gap is no line break, so this is the directive's own
    simp only [List.mem_cons, List.not_mem_nil, or_false] at he
    rcases he with rfl | rfl <;> rcases hside with ⟨-, htok, hother⟩ | ⟨-, htok, hother⟩
    · exact htok.symm
    · rw [hother] at hbreak
      cases hbreak
    · rw [hother] at hbreak
      cases hbreak
    · exact htok.symm

/-- Resizing changes one gap: the one the directive is effective on, or the one its token is inside. -/
theorem gap_kept {C H H' D : List Linked} {x y : Linked} (hn : preset.amount d.side d.rule = .exact n)
    (hH : ∀ e ∈ H, e.2.isSolid = false) (hH' : ∀ e ∈ H', e.2.isSolid = false)
    (hside : (d.side = .after ∧ d.token = x.1 ∧ y.2.isSolid = true ∧ y.2.isLineBreak = false) ∨
      (d.side = .before ∧ d.token = y.1 ∧ x.2.isSolid = true ∧ x.2.isLineBreak = false))
    (heff : ∀ n, ¬ d.Effective preset (Linked.solids (C ++ x :: (H ++ y :: D))) g n)
    (hinside : ∀ G, (Linked.gaps (C ++ x :: (H ++ y :: D)))[g]? = some G → ∀ e ∈ G, e.1 ≠ d.token) :
    (Linked.gaps (C ++ x :: (H' ++ y :: D)))[g]? = (Linked.gaps (C ++ x :: (H ++ y :: D)))[g]? := by
  cases hx : x.2.isSolid with
  | false =>
      -- the token is the whitespace entry in front of the run
      obtain ⟨-, htok, hy, -⟩ | ⟨-, -, hx', -⟩ := hside
      · have hwith : ∀ K : List Linked, C ++ x :: (K ++ y :: D) = C ++ ((x :: K) ++ y :: D) := by simp
        have hxH : ∀ K : List Linked, (∀ e ∈ K, e.2.isSolid = false) →
            ∀ e ∈ x :: K, e.2.isSolid = false := fun K hK => List.forall_mem_cons.mpr ⟨hx, hK⟩
        rw [htok, hwith] at hinside
        rw [hwith H', hwith H]
        exact Linked.getElem?_gaps_of_mem (by simpa using hy) (hxH H hH) (hxH H' hH')
          List.mem_cons_self hinside
      · rw [hx] at hx'
        cases hx'
  | true =>
      cases hy : y.2.isSolid with
      | true =>
          have hfront : ∀ K : List Linked, C ++ x :: (K ++ y :: D) = (C ++ [x]) ++ (K ++ y :: D) := by
            simp
          have hlen : (Linked.solids (C ++ [x])).length = (Linked.solids C).length + 1 := by
            rw [Linked.solids_append_cons hx, List.length_append]
            rfl
          have hne : g ≠ (Linked.solids (C ++ [x])).length := by
            rw [hlen]
            rintro rfl
            refine heff n (.of_between hn hx hH hy ?_)
            exact hside.imp (fun h => ⟨h.1, h.2.1, h.2.2.2⟩) fun h => ⟨h.1, h.2.1, h.2.2.2⟩
          rw [hfront H', hfront H]
          exact Linked.getElem?_gaps_of_ne (by simpa using hy) hH hH' hne
      | false =>
          -- the token is the whitespace entry behind the run, which goes on behind it
          obtain ⟨-, -, hy', -⟩ | ⟨-, htok, -, -⟩ := hside
          · rw [hy] at hy'
            cases hy'
          · obtain ⟨M, T, rfl, hM, hT⟩ := Linked.exists_blank_front D
            have hyM : ∀ K : List Linked, (∀ e ∈ K, e.2.isSolid = false) →
                ∀ e ∈ K ++ y :: M, e.2.isSolid = false := fun K hK =>
              List.forall_mem_append.mpr ⟨hK, List.forall_mem_cons.mpr ⟨hy, hM⟩⟩
            have hthrough : ∀ K : List Linked, C ++ x :: (K ++ y :: (M ++ T)) =
                (C ++ [x]) ++ ((K ++ y :: M) ++ T) := by simp
            rw [htok, hthrough] at hinside
            rw [hthrough H', hthrough H]
            exact Linked.getElem?_gaps_of_mem hT (hyM H hH) (hyM H' hH') (by simp) hinside

/-- **One directive leaves a gap alone** that it is not effective on, unless it is on a token inside it. -/
theorem limit_keeps_gap (h : Chain.Holds ch es)
    (heff : ∀ n, ¬ d.Effective preset (Linked.solids es) g n)
    (hinside : ∀ G, (Linked.gaps es)[g]? = some G → ∀ e ∈ G, e.1 ≠ d.token) :
    (Linked.gaps (d.limit (preset.amount d.side d.rule) ch).chain.entries)[g]? =
      (Linked.gaps es)[g]? := by
  have hsame : ∀ e : Edited, e = ⟨ch, 0⟩ → (Linked.gaps e.chain.entries)[g]? = (Linked.gaps es)[g]? := by
    rintro e rfl
    rw [h.entries_eq]
  cases hcontains : ch.contains d.token with
  | false => exact hsame _ (limit_of_not_contains hcontains)
  | true =>
    obtain ⟨A, e, B, rfl, he⟩ := h.split_of_contains hcontains
    cases hamount : preset.amount d.side d.rule with
    | preserve => exact hsame _ rfl
    | exact n =>
      by_cases hbeyond : (Linked.beyond A B d.side).all (·.2.isLineBreak) = true
      · exact hsame _ (by rw [limit_eq h he.symm, if_pos hbeyond])
      · obtain ⟨C, x, H, y, D, H', hsplit, hH, hends, hholds, htext⟩ :=
          exists_resized h he.symm hbeyond n
        rw [hholds.entries_eq, hsplit]
        rw [hsplit] at heff hinside
        have hH' : ∀ e ∈ H', e.2.isSolid = false := fun e he =>
          Token.isSolid_of_mem_blankRun (htext ▸ List.mem_map_of_mem he)
        refine gap_kept hamount hH hH' ?_ heff hinside
        rcases hends with ⟨hs, rfl, hy, hbreak⟩ | ⟨hs, rfl, hx, hbreak⟩
        · exact .inl ⟨hs, he.symm, hy, hbreak⟩
        · exact .inr ⟨hs, he.symm, hx, hbreak⟩

/-- **Directives leave a gap alone** that none of them is effective on and none is inside of, whatever handles
    they name. -/
theorem applyAll_keeps_gap (preset : Preset) : ∀ (ds : List Directive) {ch : Chain},
    Chain.Holds ch ch.entries → (Linked.gaps ch.entries)[g]? = some G →
    (∀ d ∈ ds, (∀ n, ¬ d.Effective preset (Linked.solids ch.entries) g n) ∧ ∀ e ∈ G, e.1 ≠ d.token) →
    (Linked.gaps (applyAll ds preset ch).chain.entries)[g]? = some G
  | [], _, _, hG, _ => hG
  | d :: ds, ch, h, hG, hds => by
    have hframed := (edits_operations d (preset.amount d.side d.rule) ch).1.framed h
    obtain ⟨heff, hinside⟩ := hds d List.mem_cons_self
    have hkeep := limit_keeps_gap h heff fun G' hG' => by
      rw [Option.some.inj (hG'.symm.trans hG)]
      exact hinside
    rw [applyAll_cons]
    refine applyAll_keeps_gap preset ds hframed.holds (hkeep.trans hG) fun d' hd' => ?_
    rw [hframed.solids]
    exact hds d' (List.mem_cons_of_mem _ hd')

/-- **Which line ends are left alone**, on a chain with any history. A directive on a linked token changes
    nothing exactly where its rule preserves, or its whitespace ends at a line break or at the edge, or is
    already what is asked for. And whatever directives are applied, the whitespace directly in front of a
    line break, directly behind one, and at both ends of the chain keeps its tokens, as long as none of the
    directives is on a line break next to it or on one of the whitespace tokens in it. -/
theorem line_ends_kept {ops : List Operation} {ch : Chain} (h : Chain.empty.run? ops = some ch)
    (preset : Preset) :
    (∀ (A : List Linked) (e : Linked) (B : List Linked) (d : Directive) (amount : Amount),
      ch.entries = A ++ e :: B → d.token = e.1 →
      (d.limit amount ch = ⟨ch, 0⟩ ↔ amount = .preserve ∨
        (Linked.beyond A B d.side).all (·.2.isLineBreak) = true ∨
        ∃ n, amount = .exact n ∧ (Linked.run A B d.side).map (·.2) = Token.blankRun n.toNat)) ∧
    ∀ (ds : List Directive) (g : Nat) (G : List Linked), (Linked.gaps ch.entries)[g]? = some G →
      Linked.AtLineEnd (Linked.solids ch.entries) g →
      (∀ d ∈ ds, (∀ e ∈ Linked.borders (Linked.solids ch.entries) g, e.2.isLineBreak = true →
        e.1 ≠ d.token) ∧ ∀ e ∈ G, e.1 ≠ d.token) →
      (Linked.gaps (applyAll ds preset ch).chain.entries)[g]? = some G := by
  have hch := Chain.holds_of_run? h
  constructor
  · intro A e B d amount hsplit hd
    rw [hsplit] at hch
    exact limit_eq_self_iff hch hd amount
  · intro ds g G hG hend hds
    refine applyAll_keeps_gap preset ds hch hG fun d hd => ⟨fun n heff => ?_, (hds d hd).2⟩
    -- only from a line break next to the gap could a directive be effective on it
    obtain ⟨e, he, hed, hbreak⟩ := heff.exists_lineBreak hend
    exact (hds d hd).1 e he hbreak hed

end Keep

/-- The line `(` with its trailing space and the indentation of the line below, between directives on the
    tokens around them, on the whitespace of another gap and on a handle that was never given. -/
theorem line_ends_kept_between :
    let ts : List Token := [⟨.punctuator, "("⟩, ⟨.whiteSpace, " "⟩, ⟨.lineBreak, "\n"⟩,
      ⟨.whiteSpace, "  "⟩, ⟨.identifier, "a"⟩, ⟨.whiteSpace, " "⟩, ⟨.punctuator, ")"⟩]
    let ch := Chain.ofList ts
    let ds : List Directive := [⟨0, .after, .openingParenthesis⟩, ⟨4, .before, .closingParenthesis⟩,
      ⟨5, .after, .openingParenthesis⟩, ⟨9, .before, .closingParenthesis⟩, ⟨6, .before, .closingParenthesis⟩]
    (Linked.gaps (applyAll ds .standard ch).chain.entries)[1]? = some [(1, ⟨.whiteSpace, " "⟩)] ∧
      (Linked.gaps (applyAll ds .standard ch).chain.entries)[2]? = some [(3, ⟨.whiteSpace, "  "⟩)] ∧
      (applyAll ds .standard ch).chain.source = "( \n  a)" := by
  intro ts ch ds
  have hrun : Chain.empty.run? [.collect ts] = some ch := rfl
  have hentries : ch.entries = [(0, ⟨.punctuator, "("⟩), (1, ⟨.whiteSpace, " "⟩), (2, ⟨.lineBreak, "\n"⟩),
      (3, ⟨.whiteSpace, "  "⟩), (4, ⟨.identifier, "a"⟩), (5, ⟨.whiteSpace, " "⟩),
      (6, ⟨.punctuator, ")"⟩)] := by
    decide +kernel
  have hkept := (line_ends_kept hrun .standard).2 ds
  have hend : ∀ g ∈ [1, 2], Linked.AtLineEnd (Linked.solids ch.entries) g := by
    rw [hentries]
    exact fun g hg => .inr (.inr (by revert g; decide +kernel))
  rw [hentries] at hkept hend
  exact ⟨hkept 1 _ (by decide +kernel) (hend 1 (by decide)) (by decide +kernel),
    hkept 2 _ (by decide +kernel) (hend 2 (by decide)) (by decide +kernel), by decide +kernel⟩

/-- **A directive on a line break strips the indentation behind it**: the whitespace touches the line break,
    and still it is taken out. -/
theorem limit_strips_indentation :
    let ch := Chain.ofList [⟨.punctuator, "("⟩, ⟨.lineBreak, "\n"⟩, ⟨.whiteSpace, "  "⟩,
      ⟨.identifier, "a"⟩, ⟨.punctuator, ")"⟩]
    let behind : List Linked := [(2, ⟨.whiteSpace, "  "⟩), (3, ⟨.identifier, "a"⟩), (4, ⟨.punctuator, ")"⟩)]
    let d : Directive := ⟨1, .after, .openingParenthesis⟩
    ch.entries = [(0, ⟨.punctuator, "("⟩)] ++ (1, ⟨.lineBreak, "\n"⟩) :: behind ∧
      Linked.run [(0, ⟨.punctuator, "("⟩)] behind d.side = [(2, ⟨.whiteSpace, "  "⟩)] ∧
      (Preset.standard.amount d.side d.rule = .exact 0 ∧ (d.limit (.exact 0) ch).changed = 1) ∧
      ch.source = "(\n  a)" ∧ (applyAll [d] .standard ch).chain.source = "(\na)" := by
  decide +kernel

end Directive
end ScriptSpacing
