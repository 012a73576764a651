import ScriptSpacing.Proofs.Document.Format

/-!
# `Proofs.Document.Limited` — the spaces inside parentheses, and nothing else

`Limited` says of a document which gaps its pairs limit and to how many spaces: the gap behind the opening
and the gap in front of the closing, if the rule there asks for an amount and no line break is on the other
side. It is stated over the tokens of the text, without mention of a pass.

The marks of a pass are exactly those gaps (`Of.mem_marks_iff`). One gap may have many marks, as when a
statement and its expression share parentheses, but never one behind an opening and one in front of a
closing: between the two parentheses of a pair there is a token (`Of.marks_agree`). So the last mark on a gap
writes what every other writes.
-/

namespace ScriptSpacing

/-! ## Numbered tokens -/

/-- The gap behind an entry, as the tokens count it. -/
theorem Token.gapAfter_numbered {ts : List Token} {A B : List Linked} {e : Linked}
    (h : numbered ts = A ++ e :: B) (he : e.2.isSolid = true) :
    gapAfter ts e.1 = (Linked.solids A).length + 1 ∧
      solidBehind ts (gapAfter ts e.1) = (Linked.solids B).head?.map (·.2) := by
  obtain ⟨hid, hts⟩ := numbered_split h
  have hA : A.length = (A.map (·.2)).length := by rw [List.length_map]
  have hgap : gapAfter ts e.1 = (Linked.solids A).length + 1 := by
    rw [hid, hts, hA, gapAfter_append_cons he, Linked.length_solids]
  refine ⟨hgap, ?_⟩
  rw [hgap, hts, Linked.length_solids, solidBehind_append_cons he, ← Linked.map_snd_solids,
    List.head?_map]

/-- The gap in front of an entry, as the tokens count it. -/
theorem Token.gapBefore_numbered {ts : List Token} {A B : List Linked} {e : Linked}
    (h : numbered ts = A ++ e :: B) :
    gapBefore ts e.1 = (Linked.solids A).length ∧
      solidInFront ts (gapBefore ts e.1) = (Linked.solids A).getLast?.map (·.2) := by
  obtain ⟨hid, hts⟩ := numbered_split h
  have hA : A.length = (A.map (·.2)).length := by rw [List.length_map]
  have hgap : gapBefore ts e.1 = (Linked.solids A).length := by
    rw [hid, hts, hA, gapBefore_append, Linked.length_solids]
  refine ⟨hgap, ?_⟩
  rw [hgap, hts, Linked.length_solids, solidInFront_append, ← Linked.map_snd_solids,
    List.getLast?_map]

/-! ## Neighbours among code tokens -/

section Neighbours

variable {ch : Chain} {A B A' B' : List Linked} {e f : Linked} {j : Nat}

/-- A code token further on is behind. -/
theorem Chain.Holds.mem_solids_behind (h : Holds ch (A ++ e :: B)) (he : e.2.isCode = true)
    (hj : (Code.ofChain ch).at? j = some f) (hlt : (A.filter (·.2.isCode)).length < j) :
    f ∈ Linked.solids B := by
  rw [h.at?_split he, List.getElem?_append_right (Nat.le_of_lt hlt)] at hj
  obtain ⟨i, hi⟩ := Nat.exists_eq_add_of_lt hlt
  rw [show j - (A.filter (·.2.isCode)).length = i + 1 by omega, List.getElem?_cons_succ] at hj
  obtain ⟨hf, hcode⟩ := List.mem_filter.mp (List.mem_of_getElem? hj)
  exact List.mem_filter.mpr ⟨hf, Token.isSolid_of_isCode hcode⟩

/-- A code token further back is in front. -/
theorem Chain.Holds.mem_solids_in_front (h : Holds ch (A ++ e :: B)) (he : e.2.isCode = true)
    (hj : (Code.ofChain ch).at? j = some f) (hlt : j < (A.filter (·.2.isCode)).length) :
    f ∈ Linked.solids A := by
  rw [h.at?_split he, List.getElem?_append_left hlt] at hj
  obtain ⟨hf, hcode⟩ := List.mem_filter.mp (List.mem_of_getElem? hj)
  exact List.mem_filter.mpr ⟨hf, Token.isSolid_of_isCode hcode⟩

/-- Entries with one gap between them have no code token between them. -/
theorem Linked.length_code_succ (h : A ++ e :: B = A' ++ f :: B') (he : e.2.isCode = true)
    (hgap : (solids A).length + 1 = (solids A').length) :
    (A'.filter (·.2.isCode)).length = (A.filter (·.2.isCode)).length + 1 := by
  rcases List.append_eq_append_iff.mp h with ⟨W, rfl, hW⟩ | ⟨W, rfl, -⟩
  · cases W with
    | nil =>
        rw [List.append_nil] at hgap
        omega
    | cons w G =>
        obtain ⟨rfl, -⟩ := List.cons.inj hW
        rw [solids_append_cons (Token.isSolid_of_isCode he), List.length_append,
          List.length_cons] at hgap
        have hG : G.filter (·.2.isCode) = [] := by
          have hblank : solids G = [] := List.eq_nil_of_length_eq_zero (by omega)
          rw [List.filter_eq_nil_iff]
          intro x hx hcode
          exact List.filter_eq_nil_iff.mp hblank x hx (Token.isSolid_of_isCode hcode)
        rw [List.filter_append, Chain.filter_code_cons he, hG, List.length_append]
        rfl
  · rw [solids_append, List.length_append] at hgap
    omega

end Neighbours

namespace Document

variable {d : Document} {us : List Token} {preset : Preset}

/-- **The gaps that the pairs of a document limit**, and to how many spaces: `us` are its tokens, so that
    the handles of a pair are their indices. -/
def Limited (d : Document) (us : List Token) (preset : Preset) (g : Nat) (n : UInt8) : Prop :=
  ∃ id ∈ d.tree.arena.preorder d.tree.root, ∃ p,
    Pair.find? d.chain d.tree.arena id = some p ∧
    ((preset.amount .after .openingParenthesis = .exact n ∧ g = Token.gapAfter us p.opening ∧
        (Token.solidBehind us g).all (!·.isLineBreak) = true) ∨
      (preset.amount .before .closingParenthesis = .exact n ∧ g = Token.gapBefore us p.closing ∧
        (Token.solidInFront us g).all (!·.isLineBreak) = true))

/-! ## Marks -/

variable {p p' : Pair} {k k' m m' : Nat}

/-- The mark behind an opening parenthesis. -/
theorem Of.mark?_opening (h : d.Of us) (hp : p.Stands (Code.ofChain d.chain) k m) :
    Directive.mark? (Linked.solids (Token.numbered us)) ⟨p.opening, .after, .openingParenthesis⟩ =
      if (Token.solidBehind us (Token.gapAfter us p.opening)).all (!·.isLineBreak) then
        some ⟨Token.gapAfter us p.opening, .after, .openingParenthesis⟩
      else none := by
  obtain ⟨c, hc, hopening⟩ := hp.opening
  obtain ⟨A, B, hsplit, hcode, hlen⟩ := h.holds.exists_split hc
  have hsolid := Token.isSolid_of_isCode hcode
  have hinside := hp.closes.inside
  have happart := hp.apart
  obtain ⟨f, hf⟩ : ∃ f, (Code.ofChain d.chain).at? (k + 1) = some f :=
    Code.exists_at? (by omega)
  have hbehind := Chain.Holds.mem_solids_behind (hsplit ▸ h.holds) hcode hf
    (hlen ▸ Nat.lt_succ_self k)
  obtain ⟨y, L, hy⟩ := List.exists_cons_of_ne_nil (List.ne_nil_of_mem hbehind)
  obtain ⟨hgap, htoken⟩ := Token.gapAfter_numbered hsplit hsolid
  rw [hopening, htoken, hgap, Directive.mark?, hsplit,
    Directive.gap?_after (hsplit ▸ h.holds.nodup) hsolid, hy]
  cases hbreak : y.2.isLineBreak <;> simp [hbreak]

/-- The mark in front of a closing parenthesis. -/
theorem Of.mark?_closing (h : d.Of us) (hp : p.Stands (Code.ofChain d.chain) k m) :
    Directive.mark? (Linked.solids (Token.numbered us)) ⟨p.closing, .before, .closingParenthesis⟩ =
      if (Token.solidInFront us (Token.gapBefore us p.closing)).all (!·.isLineBreak) then
        some ⟨Token.gapBefore us p.closing, .before, .closingParenthesis⟩
      else none := by
  obtain ⟨e, he, hclosing⟩ := hp.closing
  obtain ⟨A, B, hsplit, hcode, hlen⟩ := h.holds.exists_split he
  have hsolid := Token.isSolid_of_isCode hcode
  obtain ⟨c, hc, -⟩ := hp.opening
  have hfront := Chain.Holds.mem_solids_in_front (hsplit ▸ h.holds) hcode hc
    (hlen ▸ hp.closes.lt)
  obtain ⟨L, x, hx⟩ := (List.eq_nil_or_concat' (Linked.solids A)).resolve_left
    (List.ne_nil_of_mem hfront)
  obtain ⟨hgap, htoken⟩ := Token.gapBefore_numbered hsplit
  rw [hclosing, htoken, hgap, Directive.mark?, hsplit,
    Directive.gap?_before (hsplit ▸ h.holds.nodup) hsolid, hx]
  cases hbreak : x.2.isLineBreak <;> simp [hbreak]

/-- **The gap behind an opening parenthesis is not the one in front of a closing one.** -/
theorem Of.gapAfter_ne_gapBefore (h : d.Of us) (hp : p.Stands (Code.ofChain d.chain) k m)
    (hp' : p'.Stands (Code.ofChain d.chain) k' m') :
    Token.gapAfter us p.opening ≠ Token.gapBefore us p'.closing := by
  intro heq
  obtain ⟨c, hc, hopening⟩ := hp.opening
  obtain ⟨e, he, hclosing⟩ := hp'.closing
  obtain ⟨A, B, hsplit, hcode, rfl⟩ := h.holds.exists_split hc
  obtain ⟨A', B', hsplit', -, hlen'⟩ := h.holds.exists_split he
  rw [hopening, (Token.gapAfter_numbered hsplit (Token.isSolid_of_isCode hcode)).1, hclosing,
    (Token.gapBefore_numbered hsplit').1] at heq
  have hnext := Linked.length_code_succ (hsplit.symm.trans hsplit') hcode heq
  -- directly behind the opening a parenthesis closes, so it closes that one
  have hempty := Grammar.closes_of_nests hp.closes.opener (Grammar.Nests.refl _ _)
    (hnext ▸ hlen' ▸ hp'.closes.closer)
  have hm := hp.closes.unique hempty
  have happart := hp.apart
  omega

/-- **The marks of a pass are the gaps inside its pairs.** -/
theorem Of.mem_marks_iff (h : d.Of us) {mark : Mark} :
    mark ∈ d.marks us ↔ ∃ id ∈ d.tree.arena.preorder d.tree.root, ∃ p,
      Pair.find? d.chain d.tree.arena id = some p ∧
      ((mark = ⟨Token.gapAfter us p.opening, .after, .openingParenthesis⟩ ∧
          (Token.solidBehind us mark.gap).all (!·.isLineBreak) = true) ∨
        (mark = ⟨Token.gapBefore us p.closing, .before, .closingParenthesis⟩ ∧
          (Token.solidInFront us mark.gap).all (!·.isLineBreak) = true)) := by
  simp only [marks, List.mem_filterMap, mem_directives_iff]
  constructor
  · rintro ⟨dir, ⟨id, hid, p, hp, hdir⟩, hmark⟩
    obtain ⟨k, m, hstands⟩ := h.found hp
    refine ⟨id, hid, p, hp, ?_⟩
    rcases hdir with rfl | rfl
    · rw [h.mark?_opening hstands] at hmark
      split at hmark
      · next hall =>
          cases hmark
          exact .inl ⟨rfl, hall⟩
      · cases hmark
    · rw [h.mark?_closing hstands] at hmark
      split at hmark
      · next hall =>
          cases hmark
          exact .inr ⟨rfl, hall⟩
      · cases hmark
  · rintro ⟨id, hid, p, hp, ⟨rfl, hall⟩ | ⟨rfl, hall⟩⟩
    · obtain ⟨k, m, hstands⟩ := h.found hp
      exact ⟨_, ⟨id, hid, p, hp, .inl rfl⟩, by rw [h.mark?_opening hstands, if_pos hall]⟩
    · obtain ⟨k, m, hstands⟩ := h.found hp
      exact ⟨_, ⟨id, hid, p, hp, .inr rfl⟩, by rw [h.mark?_closing hstands, if_pos hall]⟩

/-- **Marks on one gap are the same mark.** -/
theorem Of.marks_agree (h : d.Of us) {mark mark' : Mark} (hmem : mark ∈ d.marks us)
    (hmem' : mark' ∈ d.marks us) (hgap : mark.gap = mark'.gap) : mark = mark' := by
  obtain ⟨id, -, p, hp, hside⟩ := h.mem_marks_iff.mp hmem
  obtain ⟨id', -, p', hp', hside'⟩ := h.mem_marks_iff.mp hmem'
  obtain ⟨k, m, hstands⟩ := h.found hp
  obtain ⟨k', m', hstands'⟩ := h.found hp'
  rcases hside with ⟨rfl, -⟩ | ⟨rfl, -⟩ <;> rcases hside' with ⟨rfl, -⟩ | ⟨rfl, -⟩
  · exact congrArg (Mark.mk · _ _) hgap
  · exact absurd hgap (h.gapAfter_ne_gapBefore hstands hstands')
  · exact absurd hgap.symm (h.gapAfter_ne_gapBefore hstands' hstands)
  · exact congrArg (Mark.mk · _ _) hgap

/-- A limited gap is one with a mark that asks for an amount. -/
theorem Of.limited_iff (h : d.Of us) {g : Nat} {n : UInt8} :
    d.Limited us preset g n ↔ ∃ mark ∈ d.marks us, mark.gap = g ∧ mark.amount preset = .exact n := by
  constructor
  · rintro ⟨id, hid, p, hp, ⟨hn, rfl, hall⟩ | ⟨hn, rfl, hall⟩⟩
    · exact ⟨_, h.mem_marks_iff.mpr ⟨id, hid, p, hp, .inl ⟨rfl, hall⟩⟩, rfl, hn⟩
    · exact ⟨_, h.mem_marks_iff.mpr ⟨id, hid, p, hp, .inr ⟨rfl, hall⟩⟩, rfl, hn⟩
  · rintro ⟨mark, hmark, rfl, hn⟩
    obtain ⟨id, hid, p, hp, ⟨rfl, hall⟩ | ⟨rfl, hall⟩⟩ := h.mem_marks_iff.mp hmark
    · exact ⟨id, hid, p, hp, .inl ⟨hn, rfl, hall⟩⟩
    · exact ⟨id, hid, p, hp, .inr ⟨hn, rfl, hall⟩⟩

/-- A mark is on a gap of the text. -/
theorem Of.gap_lt (h : d.Of us) {mark : Mark} (hmark : mark ∈ d.marks us) :
    mark.gap < (Token.gaps us).length := by
  rw [Token.length_gaps]
  obtain ⟨id, -, p, hp, ⟨rfl, -⟩ | ⟨rfl, -⟩⟩ := h.mem_marks_iff.mp hmark
  · exact Nat.lt_succ_of_le (List.Sublist.length_le ((List.take_sublist _ _).filter _))
  · exact Nat.lt_succ_of_le (List.Sublist.length_le ((List.take_sublist _ _).filter _))

/-! ## A formatted text -/

/-- **A limited gap has its spaces.** -/
theorem Respaced.gapText_of_limited {d' : Document} {ts : List Token}
    (hr : d.Respaced ts preset us d') {g : Nat} {n : UInt8} (h : d'.Limited us preset g n) :
    Token.gapText us g = some (String.ofList (List.replicate n.toNat ' ')) := by
  obtain ⟨mark, hmark, rfl, hn⟩ := hr.reread.limited_iff.mp h
  have hlt := hr.reread.gap_lt hmark
  rw [hr.gaps, Mark.length_overwrite] at hlt
  have hall : ∀ mark' ∈ d'.marks us, mark'.gap = mark.gap → mark'.amount preset = .exact n := by
    intro mark' hmark' hsame
    rw [hr.reread.marks_agree hmark' hmark hsame, hn]
  have hgap := Mark.getElem?_overwrite_of_forall hlt ⟨mark, hmark, rfl⟩ hall
  rw [Token.gapText, hr.gaps, ← hr.marks, hgap, Option.map_some, Token.source_blankRun]

/-- **A gap that is not limited is what it was.** -/
theorem Respaced.gapText_of_not_limited {d' : Document} {ts : List Token}
    (hr : d.Respaced ts preset us d') {g : Nat} (h : ¬ ∃ n, d'.Limited us preset g n) :
    Token.gapText us g = Token.gapText ts g := by
  rw [Token.gapText, Token.gapText, hr.gaps, ← hr.marks, Mark.getElem?_overwrite_of_forall_not]
  intro mark hmark hgap
  cases hn : mark.amount preset with
  | preserve => rfl
  | exact n => exact absurd ⟨n, hr.reread.limited_iff.mpr ⟨mark, hmark, hgap, hn⟩⟩ h

end Document

/-- **The policy holds in a formatted text, and nothing else has moved.** A text that can be read is
    formatted. In the text that comes out, whose solid tokens are those of the text, every gap that its own
    pairs limit is as many spaces as the preset asks for there; and every other gap is the one with the same
    number in the text that was formatted. -/
theorem formatSource_limits {s : String} {d : Document} (h : Document.read s = .ok d)
    (preset : Preset) :
    ∃ t ts us d', formatSource s preset = .ok t ∧ Token.scan s = .ok ts ∧ Token.scan t = .ok us ∧
      Document.read t = .ok d' ∧ Token.solids us = Token.solids ts ∧
      (∀ g n, d'.Limited us preset g n →
        Token.gapText us g = some (String.ofList (List.replicate n.toNat ' '))) ∧
      ∀ g, (¬ ∃ n, d'.Limited us preset g n) → Token.gapText us g = Token.gapText ts g := by
  obtain ⟨ts, hof, rfl⟩ := Document.read_eq_ok_iff.mp h
  obtain ⟨us, d', hr⟩ := hof.respaced preset
  exact ⟨Token.source us, ts, us, d', hof.formatSource_eq hr, hof.scan_eq, hr.reread.scan_eq,
    hr.reread.read_eq, hr.solids, fun _ _ => hr.gapText_of_limited,
    fun _ => hr.gapText_of_not_limited⟩

/-- Two spaces inside the parentheses of a sum; the space inside the sum stays. -/
theorem formatSource_limits_sum :
    ∃ t us, formatSource "x = (a +b)*c;" (Preset.empty.inside (.exact 2)) = .ok t ∧
      Token.scan t = .ok us ∧ Token.gapText us 3 = some "  " := by
  obtain ⟨d, hread, -⟩ := Document.exists_read (s := "x = (a +b)*c;") (fun _ => True)
    (by decide +kernel)
  obtain ⟨t, ts, us, d', ht, -, hus, hd', -, hlimited, -⟩ :=
    formatSource_limits hread (Preset.empty.inside (.exact 2))
  have htext : formatSource "x = (a +b)*c;" (Preset.empty.inside (.exact 2)) =
      .ok "x = (  a +b  )*c;" := by decide +kernel
  obtain rfl : t = "x = (  a +b  )*c;" := Except.ok.inj (ht.symm.trans htext)
  -- the sum is the node 3, and its parentheses are the tokens 4 and 11
  obtain ⟨d'', hd'', hid, hpair, hgap, hall⟩ := Document.exists_read (s := "x = (  a +b  )*c;")
    (fun d => 3 ∈ d.tree.arena.preorder d.tree.root ∧
      Pair.find? d.chain d.tree.arena 3 = some ⟨4, 11⟩ ∧
      3 = Token.gapAfter d.chain.toList 4 ∧
      (Token.solidBehind d.chain.toList 3).all (!·.isLineBreak) = true) (by decide +kernel)
  obtain rfl : d' = d'' := Except.ok.inj (hd'.symm.trans hd'')
  obtain ⟨vs, hof, hsource⟩ := Document.read_eq_ok_iff.mp hd'
  obtain rfl : us = vs := Except.ok.inj (hus.symm.trans (hsource ▸ hof.scan_eq))
  rw [hof.toList_eq] at hgap hall
  exact ⟨_, us, ht, hus, hlimited 3 2 ⟨3, hid, ⟨4, 11⟩, hpair, .inl ⟨by decide, hgap, hall⟩⟩⟩

end ScriptSpacing
